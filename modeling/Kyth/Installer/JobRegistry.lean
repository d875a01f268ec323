import Kyth.Installer.Job
import Mathlib.Data.List.Nodup
import Mathlib.Tactic

/-!
# The job slot of the daemon (`NativeJobRegistry` in `installer_daemon.rs`)

The registry holds the supervisor of the latest job. A supervisor is bound to one request, so every
start makes a new one, whose job numbers begin again. `job_ids_distinct_iff` says when the numbers
that the registry hands out stay distinct.
-/

namespace Kyth.Job

open Word

/-- A supervisor with its worker and the address of the flag of its job. -/
structure Supervisor where
  state : JobState
  worker : Worker
  flag : ℕ

/-- The registry with everything its requests share: all cancellation flags and the supervisors of
all jobs that were started, in order. -/
structure System where
  flags : List Bool := []
  supervisors : List Supervisor := []
  active : Option ℕ := none

/-- What happens to the registry. The answers of a start are those of
`NativePhaseExecutor::from_request`, of `record_job_started` and of the thread that is spawned. -/
inductive Event
  | start (executor recorded spawned : Except String Unit)
  | cancel (jobId : ℕ)
  | work (index : ℕ) (answer : Answer)

/-- What a request returns. -/
inductive Outcome
  | started (result : Except String StartReceipt)
  | cancelled (result : Except String Unit)
  | worked

namespace System

/-- The supervisor in the slot. -/
def slot (s : System) : Option Supervisor := s.active.bind fun index => s.supervisors[index]?

/-- The start of a new supervisor, which takes the slot when it succeeds. -/
def startNew (recorded spawned : Except String Unit) (s : System) :
    Except String StartReceipt × System :=
  let flag := s.flags.length
  let flags := s.flags ++ [false]
  match ({} : JobState).start flag recorded spawned with
  | (.error error, _) => (.error error, { s with flags })
  | (.ok receipt, state) =>
      (.ok receipt,
        { flags
          supervisors := s.supervisors ++ [⟨state, { jobId := receipt.jobId }, flag⟩]
          active := some s.supervisors.length })

/-- `NativeJobRegistry::start`. -/
def start (executor recorded spawned : Except String Unit) (s : System) :
    Except String StartReceipt × System :=
  if (s.slot.map fun supervisor => supervisor.state.workerActive) = some true then
    (.error "An installation is already running.", s)
  else
    match executor with
    | .error error => (.error error, s)
    | .ok _ => s.startNew recorded spawned

/-- The number of a job in a refusal. -/
def jobIdText : Option ℕ → String
  | some id => toString id
  | none => "none"

/-- `NativeJobRegistry::cancel`. -/
def cancel (jobId : ℕ) (s : System) : Except String Unit × System :=
  match s.active, s.slot with
  | some index, some supervisor =>
      if supervisor.state.jobId ≠ some jobId then
        (.error ("Cancel refused: job_id " ++ toString jobId ++
          " does not match the active installation (job_id " ++
          jobIdText supervisor.state.jobId ++ ")."), s)
      else
        match requestCancel supervisor.state with
        | (.error error, _) => (.error error, s)
        | (.ok token, state) =>
            (.ok (), { s with
              flags := (token.map fun flag => s.flags.set flag true).getD s.flags
              supervisors := s.supervisors.set index { supervisor with state } })
  | _, _ => (.error "No installation is running to cancel.", s)

/-- A step of the worker of a job. -/
def work (index : ℕ) (answer : Answer) (s : System) : System :=
  match s.supervisors[index]? with
  | none => s
  | some supervisor =>
      let (worker, state) := supervisor.worker.step s.flags answer supervisor.state
      { s with supervisors := s.supervisors.set index { supervisor with state, worker } }

/-- One event. -/
def step (s : System) : Event → Outcome × System
  | .start executor recorded spawned =>
      let (result, s') := s.start executor recorded spawned
      (.started result, s')
  | .cancel jobId =>
      let (result, s') := s.cancel jobId
      (.cancelled result, s')
  | .work index answer => (.worked, s.work index answer)

/-- A run of events. -/
def run (s : System) (events : List Event) : System := events.foldl (fun s event => (s.step event).2) s

/-- The numbers that the successful starts of a run return. -/
def startedIds (s : System) : List Event → List ℕ
  | [] => []
  | event :: events =>
      match s.step event with
      | (.started (.ok receipt), s') => receipt.jobId :: startedIds s' events
      | (_, s') => startedIds s' events

end System

/-- A job whose worker has released the slot. -/
def Supervisor.finished (supervisor : Supervisor) : Bool := !supervisor.state.workerActive

/-- A run in which no cancel request with the number of a finished job sets the flag of a job that
was started later. -/
def StaleCancelsHarmless (events : List Event) : Prop :=
  ∀ before jobId after, events = before ++ .cancel jobId :: after →
    ∀ (i j : ℕ) (old new : Supervisor), i < j → (System.run {} before).supervisors[i]? = some old →
      (System.run {} before).supervisors[j]? = some new →
        old.finished = true → old.state.jobId = some jobId →
          (System.run {} (before ++ [.cancel jobId])).flags[new.flag]? =
            (System.run {} before).flags[new.flag]?

/-- A start that nothing refuses while the slot still holds a finished job. -/
def Restarts (s : System) (event : Event) : Prop :=
  event = .start (.ok ()) (.ok ()) (.ok ()) ∧
    ∃ supervisor, s.slot = some supervisor ∧ supervisor.finished = true

/-! ### What a step does to the list of jobs -/

namespace System

variable {s : System}

/-- The slot holds a job exactly when one was started. -/
structure Latest (s : System) : Prop where
  none_iff : s.active = none ↔ s.supervisors = []
  lt_length : ∀ index, s.active = some index → index < s.supervisors.length

theorem latest_initial : Latest {} := ⟨by simp, by simp⟩

theorem Latest.slot_eq_none_iff (h : s.Latest) : s.slot = none ↔ s.supervisors = [] := by
  rw [← h.none_iff, slot]
  cases hactive : s.active with
  | none => simp
  | some index => simp [h.lt_length index hactive]

/-- A start fails and leaves the jobs alone, or it adds a job with number 1. -/
theorem start_cases (executor recorded spawned : Except String Unit) (s : System) :
    (∃ error flags, s.start executor recorded spawned = (.error error, { s with flags })) ∨
      (∃ receipt s', s.start executor recorded spawned = (.ok receipt, s') ∧ receipt.jobId = 1 ∧
        s'.supervisors.length = s.supervisors.length + 1 ∧
        s'.active = some s.supervisors.length) ∧
        (s.slot.map fun supervisor => supervisor.state.workerActive) ≠ some true ∧
        executor = .ok () ∧ recorded = .ok () ∧ spawned = .ok () := by
  unfold start
  split_ifs with hrunning
  · exact .inl ⟨_, s.flags, rfl⟩
  · cases executor with
    | error error => exact .inl ⟨error, s.flags, rfl⟩
    | ok _ =>
      cases recorded with
      | error error => exact .inl ⟨_, _, rfl⟩
      | ok _ =>
        cases spawned with
        | error error => exact .inl ⟨_, _, rfl⟩
        | ok _ =>
          refine .inr ⟨⟨_, _, rfl, rfl, ?_, rfl⟩, hrunning, rfl, rfl, rfl⟩
          simp

/-- A request that starts nothing leaves the number of jobs and the slot alone. -/
theorem cancel_length (jobId : ℕ) (s : System) :
    (s.cancel jobId).2.supervisors.length = s.supervisors.length ∧
      (s.cancel jobId).2.active = s.active := by
  unfold cancel
  split
  · split_ifs
    · exact ⟨rfl, rfl⟩
    · split
      · exact ⟨rfl, rfl⟩
      · exact ⟨by simp, rfl⟩
  · exact ⟨rfl, rfl⟩

theorem work_length (index : ℕ) (answer : Answer) (s : System) :
    (s.work index answer).supervisors.length = s.supervisors.length ∧
      (s.work index answer).active = s.active := by
  unfold work
  split
  · exact ⟨rfl, rfl⟩
  · exact ⟨by simp, rfl⟩

/-- An event that adds a job: a start that nothing refuses. -/
structure Adds (s : System) (event : Event) : Prop where
  answers : event = .start (.ok ()) (.ok ()) (.ok ())
  free : (s.slot.map fun supervisor => supervisor.state.workerActive) ≠ some true
  started : ∃ receipt, (s.step event).1 = .started (.ok receipt) ∧ receipt.jobId = 1
  length : (s.step event).2.supervisors.length = s.supervisors.length + 1
  active : (s.step event).2.active = some s.supervisors.length

/-- An event that adds no job. -/
structure Keeps (s : System) (event : Event) : Prop where
  refused : ∀ receipt, (s.step event).1 ≠ .started (.ok receipt)
  length : (s.step event).2.supervisors.length = s.supervisors.length
  active : (s.step event).2.active = s.active

theorem step_cases (s : System) (event : Event) : s.Adds event ∨ s.Keeps event := by
  cases event with
  | start executor recorded spawned =>
    rcases start_cases executor recorded spawned s with
      ⟨error, flags, hstart⟩ | ⟨⟨receipt, s', hstart, hid, hlength, hactive⟩, hfree, rfl, rfl, rfl⟩
    · right
      constructor <;> simp [step, hstart]
    · left
      exact ⟨rfl, hfree, ⟨receipt, by simp [step, hstart], hid⟩, by simp [step, hstart, hlength],
        by simp [step, hstart, hactive]⟩
  | cancel jobId =>
    obtain ⟨hlength, hactive⟩ := cancel_length jobId s
    exact .inr ⟨fun _ => by simp [step], hlength, hactive⟩
  | work index answer =>
    obtain ⟨hlength, hactive⟩ := work_length index answer s
    exact .inr ⟨fun _ => by simp [step], hlength, hactive⟩

theorem Latest.step (h : s.Latest) (event : Event) : (s.step event).2.Latest := by
  rcases step_cases s event with hadds | hkeeps
  · have hne : (s.step event).2.supervisors ≠ [] := by
      rw [← List.length_pos_iff, hadds.length]
      exact Nat.succ_pos _
    refine ⟨by simp [hadds.active, hne], fun index hindex => ?_⟩
    rw [hadds.active, Option.some.injEq] at hindex
    rw [hadds.length]
    omega
  · refine ⟨?_, fun index hindex => ?_⟩
    · rw [hkeeps.active, h.none_iff, ← List.length_eq_zero_iff, ← List.length_eq_zero_iff,
        hkeeps.length]
    · rw [hkeeps.active] at hindex
      rw [hkeeps.length]
      exact h.lt_length index hindex

theorem length_le_step (s : System) (event : Event) :
    s.supervisors.length ≤ (s.step event).2.supervisors.length := by
  rcases step_cases s event with hadds | hkeeps
  · rw [hadds.length]
    exact Nat.le_succ _
  · exact hkeeps.length.ge

/-! ### Runs -/

theorem run_append (s : System) (events events' : List Event) :
    s.run (events ++ events') = (s.run events).run events' := List.foldl_append

theorem length_le_run (s : System) (events : List Event) :
    s.supervisors.length ≤ (s.run events).supervisors.length := by
  induction events generalizing s with
  | nil => exact le_rfl
  | cons event events ih => exact (length_le_step s event).trans (ih (s.step event).2)

theorem Latest.run (h : s.Latest) (events : List Event) : (s.run events).Latest := by
  induction events generalizing s with
  | nil => exact h
  | cons event events ih => exact ih (h.step event)

/-- Every successful start returns number 1. -/
theorem startedIds_eq_replicate (s : System) (events : List Event) :
    s.startedIds events =
      List.replicate ((s.run events).supervisors.length - s.supervisors.length) 1 := by
  induction events generalizing s with
  | nil => simp [startedIds, run]
  | cons event events ih =>
    have hrun : s.run (event :: events) = (s.step event).2.run events := rfl
    have hle := length_le_run (s.step event).2 events
    rw [startedIds, hrun]
    rcases step_cases s event with hadds | hkeeps
    · obtain ⟨receipt, hstarted, hid⟩ := hadds.started
      have hstep : s.step event = (.started (.ok receipt), (s.step event).2) :=
        Prod.ext hstarted rfl
      rw [hadds.length] at hle
      rw [hstep]
      simp only
      rw [ih, hid, hadds.length, ← List.replicate_succ]
      congr 1
      omega
    · split
      · rename_i receipt s' hstep
        exact absurd (congrArg Prod.fst hstep) (hkeeps.refused receipt)
      · rename_i s' _ hstep
        have hs' : s' = (s.step event).2 := (congrArg Prod.snd hstep).symm
        rw [hs', ih, hkeeps.length]

/-- With no restart at most one job is ever started. -/
theorem length_run_le_one (h : s.Latest) (hone : s.supervisors.length ≤ 1) {events : List Event}
    (hno : ∀ before event after, events = before ++ event :: after →
      ¬ Restarts (s.run before) event) : (s.run events).supervisors.length ≤ 1 := by
  induction events generalizing s with
  | nil => exact hone
  | cons event events ih =>
    refine ih (h.step event) ?_ fun before event' after hevents =>
      hno (event :: before) event' after (by rw [hevents, List.cons_append])
    rcases step_cases s event with hadds | hkeeps
    · -- a job in the slot would be finished, so the slot is empty
      have hslot : s.slot = none := by
        by_contra hsome
        obtain ⟨supervisor, hsupervisor⟩ := Option.ne_none_iff_exists'.1 hsome
        refine hno [] event events rfl ⟨hadds.answers, supervisor, hsupervisor, ?_⟩
        have hfree := hadds.free
        rw [hsupervisor] at hfree
        simpa [Supervisor.finished] using hfree
      rw [hadds.length, h.slot_eq_none_iff.1 hslot]
      exact le_rfl
    · rw [hkeeps.length]
      exact hone

/-- A restart makes a second job. -/
theorem two_le_length_of_restarts (h : s.Latest) {event : Event} (hrestarts : Restarts s event) :
    2 ≤ (s.step event).2.supervisors.length := by
  obtain ⟨rfl, supervisor, hslot, hfinished⟩ := hrestarts
  have hidle : ¬ supervisor.state.workerActive = true := by
    simpa [Supervisor.finished] using hfinished
  rcases step_cases s (.start (.ok ()) (.ok ()) (.ok ())) with hadds | hkeeps
  · have hne : s.supervisors ≠ [] := fun hnil => by
      rw [h.slot_eq_none_iff.2 hnil] at hslot
      cases hslot
    have hpos := List.length_pos_iff.2 hne
    rw [hadds.length]
    omega
  · refine absurd ?_ (hkeeps.refused ⟨1, 1⟩)
    simp [step, start, hslot, hidle, startNew, JobState.start, claim, satAddU64]

end System

/-- The numbers of the jobs of a run are distinct, and cancel requests for finished jobs touch no
later one, exactly when no job is started after another one has finished. -/
theorem job_ids_distinct_iff (events : List Event) :
    ((System.startedIds {} events).Nodup ∧ StaleCancelsHarmless events) ↔
      ∀ before event after, events = before ++ event :: after →
        ¬ Restarts (System.run {} before) event := by
  have hids : (System.startedIds {} events).Nodup ↔
      (System.run {} events).supervisors.length ≤ 1 := by
    rw [System.startedIds_eq_replicate, List.nodup_replicate]
    exact Iff.rfl
  constructor
  · rintro ⟨hnodup, -⟩ before event after hevents hrestarts
    have htwo := System.two_le_length_of_restarts (System.latest_initial.run before) hrestarts
    have hle := System.length_le_run ((System.run {} before).step event).2 after
    have hrun : System.run {} events = ((System.run {} before).step event).2.run after := by
      rw [hevents, System.run_append]
      rfl
    rw [← hrun] at hle
    have hone := hids.1 hnodup
    omega
  · intro hno
    have hone := System.length_run_le_one System.latest_initial (Nat.zero_le 1) hno
    refine ⟨hids.2 hone, fun before jobId after hevents i j old new hij hold hnew => ?_⟩
    have hle := System.length_le_run (System.run {} before) (.cancel jobId :: after)
    rw [← System.run_append, ← hevents] at hle
    obtain ⟨hj, -⟩ := List.getElem?_eq_some_iff.1 hnew
    omega

/-- A start that nothing refuses. -/
def startOk : Event := .start (.ok ()) (.ok ()) (.ok ())

/-- The steps of the first worker when its first phase fails. -/
def firstFails : List Event := List.replicate 6 (.work 0 ⟨.error "no disk", none⟩)

/-- Two jobs, one after the other, get the same number, and a cancel request for the first one
stops the second. -/
theorem restart_reuses_id :
    System.startedIds {} (startOk :: firstFails ++ [startOk]) = [1, 1] ∧
      ¬ StaleCancelsHarmless (startOk :: firstFails ++ [startOk, .cancel 1]) := by
  refine ⟨by decide, fun hharmless => ?_⟩
  have hjobs : ∃ old new : Supervisor,
      (System.run {} (startOk :: firstFails ++ [startOk])).supervisors = [old, new] ∧
        old.finished = true ∧ old.state.jobId = some 1 ∧ new.flag = 1 :=
    ⟨_, _, rfl, by decide, by decide, by decide⟩
  obtain ⟨old, new, hboth, hfinished, hid, hflag⟩ := hjobs
  have hsame := hharmless (startOk :: firstFails ++ [startOk]) 1 [] (by simp) 0 1 old new
    Nat.zero_lt_one (by rw [hboth]; rfl) (by rw [hboth]; rfl) hfinished hid
  rw [hflag] at hsame
  exact absurd hsame (by decide)

end Kyth.Job
