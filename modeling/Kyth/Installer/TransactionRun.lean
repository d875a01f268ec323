import Kyth.Installer.EventStream
import Kyth.Installer.Transaction

/-!
# The statuses of a machine

The registry runs one job after the other, and the worker of a job calls its executor, which writes
the transaction file. `statuses_lawful_iff` says in which runs every persisted status is one that the
rescue mode knows and that `status_transition` allows: those in which no image phase gets its status
written and no job begins over a file that an earlier one left with another status than "started".
-/

namespace Kyth.Transaction

open Kyth.Job (Phase phases Worker WorkerAt JobState System Supervisor Told)
open Kyth.Executor (Outcome Stop)

/-! ### The machine -/

/-- A call of `run_worker` to its executor. -/
inductive Call
  | execute (phase : Phase)
  | record (phase : Phase) (message : String)
  deriving DecidableEq, Repr

/-- The call that the next step of a worker makes. -/
def call (flags : List Bool) (worker : Worker) (state : JobState) : Option Call :=
  match worker.place with
  | .before (phase :: _) =>
      if worker.isCancelled flags then some (.record phase Job.cancellationMessage) else none
  | .executing phase _ => some (.execute phase)
  | .returned phase _ result =>
      if worker.isCancelled flags then some (.record phase Job.cancellationMessage)
      else
        match result with
        | .error message => some (.record phase message)
        | .ok _ => none
  | .before [] =>
      if state.isRunning worker.jobId ∧
          (state.runtime.cancelRequested = true ∨ worker.isCancelled flags = true) then
        some (.record .complete Job.cancellationMessage)
      else none
  | _ => none

/-- What the machine answers to the calls of a step. -/
structure Answers where
  phase : PhaseRun := {}
  terminal : TerminalRun := {}
  mokState : Option String := none

def Call.run (answers : Answers) : Call → Step Unit
  | .execute phase => executePhase phase answers.phase
  | .record phase message => recordTerminal phase message answers.terminal

/-- `NativePhaseExecutor`: where it writes, and its transaction. -/
structure Executor where
  path : String
  failurePath : String
  transaction : TransactionState

/-- The registry, the executors of its jobs and the files that outlive them. -/
structure Machine where
  system : System := {}
  executors : List Executor := []
  files : String → Option TransactionState := fun _ => none
  persisted : List (String × String) := []

/-- What happens: requests, steps of the workers, and the end of the daemon. -/
inductive MachineStep
  | start (path failurePath : String) (executor recorded spawned : Except String Unit)
  | cancel (jobId : ℕ)
  | work (index : ℕ) (answers : Answers)
  | crash

namespace Machine

/-- The session of an executor. -/
def session (m : Machine) (executor : Executor) : Session :=
  { path := executor.path, failurePath := executor.failurePath, transaction := executor.transaction
    files := m.files, persisted := m.persisted }

/-- The machine after a call. -/
def restore (m : Machine) (index : ℕ) (s : Session) : Machine :=
  { m with
    executors := m.executors.set index ⟨s.path, s.failurePath, s.transaction⟩
    files := s.files
    persisted := s.persisted }

/-- The daemon ends. The files stay. -/
def crash (m : Machine) : Machine := { files := m.files, persisted := m.persisted }

/-- A step of a worker with what it called and what that returned. -/
def answer (m : Machine) (index : ℕ) (mokState : Option String) :
    Except Stop Unit × Session → Machine
  | (.ok _, s) => { m.restore index s with system := m.system.work index ⟨.ok (), mokState⟩ }
  | (.error (.failed message), s) =>
      { m.restore index s with system := m.system.work index ⟨.error message, mokState⟩ }
  | (.error .crashed, s) => (m.restore index s).crash

/-- A step of the worker of a job. -/
def work (m : Machine) (index : ℕ) (answers : Answers) : Machine :=
  match m.system.supervisors[index]?, m.executors[index]? with
  | some supervisor, some executor =>
      match call m.system.flags supervisor.worker supervisor.state with
      | none => { m with system := m.system.work index ⟨.ok (), answers.mokState⟩ }
      | some call => m.answer index answers.mokState (call.run answers (m.session executor))
  | _, _ => m

/-- One step. -/
def step (m : Machine) : MachineStep → Machine
  | .start path failurePath executor recorded spawned =>
      match m.system.start executor recorded spawned with
      | (.ok receipt, system) =>
          { m with
            system
            executors := m.executors ++ [⟨path, failurePath, { jobId := some receipt.jobId }⟩] }
      | (.error _, system) => { m with system }
  | .cancel jobId => { m with system := (m.system.cancel jobId).2 }
  | .work index answers => m.work index answers
  | .crash => m.crash

/-- A run. -/
def run (m : Machine) (steps : List MachineStep) : Machine := steps.foldl step m

/-- A step that persists a status that nothing allows: the first phase of a job writes its status
over a file with another one, or the image phase is done and writes its own. -/
def Breaks (m : Machine) : MachineStep → Prop
  | .work index answers =>
      ∃ (supervisor : Supervisor) (executor : Executor),
        m.system.supervisors[index]? = some supervisor ∧ m.executors[index]? = some executor ∧
        answers.phase.cancelled = false ∧
        ((∃ rest, supervisor.worker.place = .executing .prepare rest) ∧
            replaces answers.phase.startWrite = true ∧
            statusTransition (statusAt m.files executor.path) "started" = false ∨
          (∃ rest, supervisor.worker.place = .executing .image rest) ∧
            answers.phase.BodyDone ∧ replaces answers.phase.completionWrite = true)
  | _ => False

end Machine

/-! ### Where a worker stands -/

/-- What the session of a job holds when its worker stands somewhere. -/
def Ready : WorkerAt → Session → Prop
  | .before (phase :: _), s => phase = .prepare ∨ Steady s (entersWith phase)
  | .entering phase _, s => phase = .prepare ∨ Steady s (entersWith phase)
  | .executing phase _, s => phase = .prepare ∨ Steady s (entersWith phase)
  | .returned phase _ (.ok _), s => Steady s (leavesWith phase)
  | _, _ => True

/-- A phase begins with the status that the one before it leaves. -/
theorem entersWith_next {before rest : List Phase} {phase next : Phase}
    (h : phases = before ++ phase :: next :: rest) : entersWith next = leavesWith phase := by
  rcases before with _ | ⟨a, _ | ⟨b, _ | ⟨c, _ | ⟨d, _ | ⟨e, before⟩⟩⟩⟩⟩ <;>
    simp only [phases, List.nil_append, List.cons_append, List.cons.injEq] at h
  · obtain ⟨rfl, rfl, -⟩ := h
    rfl
  · obtain ⟨-, rfl, rfl, -⟩ := h
    rfl
  · obtain ⟨-, -, rfl, rfl, -⟩ := h
    rfl
  · obtain ⟨-, -, -, rfl, rfl, -⟩ := h
    rfl
  · obtain ⟨-, -, -, -, rfl, rfl, -⟩ := h
    rfl
  · have hlength := congrArg List.length h.2.2.2.2.2
    simp only [List.length_nil, List.length_append, List.length_cons] at hlength
    omega

/-- A step of a worker, with what its call did. -/
theorem Ready.step {flags : List Bool} {answer : Job.Answer} {worker : Worker} {state : JobState}
    {s s' : Session} {told : List Job.JobEventKind} (h : Ready worker.place s)
    (htold : Told worker.place told)
    (hnone : call flags worker state = none → s' = s)
    (hexecute : ∀ phase, call flags worker state = some (.execute phase) →
      answer.result = .ok () → Steady s' (leavesWith phase)) :
    Ready (worker.step flags answer state).1.place s' := by
  obtain ⟨jobId, token, place⟩ := worker
  cases place with
  | spawned =>
    unfold Worker.step
    dsimp only
    split_ifs
    · exact .inl rfl
    · trivial
  | before rest =>
    cases rest with
    | nil =>
      unfold Worker.step
      dsimp only
      split_ifs
      · trivial
      · trivial
      · trivial
    | cons phase rest =>
      unfold Worker.step
      dsimp only
      split_ifs with hcancel
      · trivial
      · have hsame := hnone (by simp [call, hcancel])
        rw [hsame]
        exact h
  | entering phase rest =>
    have hsame := hnone rfl
    rw [hsame]
    unfold Worker.step
    dsimp only
    split_ifs
    · exact h
    · trivial
  | executing phase rest =>
    have hdone := hexecute phase rfl
    unfold Worker.step
    dsimp only
    cases hresult : answer.result with
    | ok _ => exact hdone hresult
    | error message => trivial
  | returned phase rest result =>
    unfold Worker.step
    dsimp only
    split_ifs with hcancel
    · trivial
    · cases result with
      | error message => trivial
      | ok _ =>
        have hsame := hnone (by simp [call, hcancel])
        rw [hsame]
        cases rest with
        | nil => trivial
        | cons next rest =>
          obtain ⟨before, hbefore, -⟩ := htold
          right
          rw [entersWith_next hbefore]
          exact h
  | finishing event => trivial
  | exited => trivial

namespace Machine

/-! ### Every run -/

/-- What holds of a machine in every run. -/
structure Inv (m : Machine) : Prop where
  sound : m.system.Sound
  latest : m.system.Latest
  length : m.executors.length = m.system.supervisors.length
  alone : ∀ (job : ℕ) (supervisor : Supervisor), m.system.supervisors[job]? = some supervisor →
    supervisor.worker.place.isExited = false → m.system.active = some job
  ready : ∀ (job : ℕ) (supervisor : Supervisor) (executor : Executor),
    m.system.supervisors[job]? = some supervisor → m.executors[job]? = some executor →
    Ready supervisor.worker.place (m.session executor)
  files : ∀ path, statusAt m.files path = "" ∨
    ∃ entry ∈ m.persisted, entry.2 = statusAt m.files path

/-- What a step may persist. -/
inductive Written (m : Machine) (step : MachineStep) : String × String → Prop
  | lawful {entry : String × String} (h : Lawful entry) : Written m step entry
  | breaks {entry : String × String} (h : m.Breaks step)
      (hentry : entry.2 = "started" ∨ entry.2 = "image_complete") : Written m step entry
  | afterImage {path : String} (h : statusAt m.files path = "image_complete") :
      Written m step ("image_complete", "configure_started")

variable {m : Machine}

theorem inv_initial : Inv {} where
  sound _ _ h := by cases h
  latest := System.latest_initial
  length := rfl
  alone _ _ h := by cases h
  ready _ _ _ h := by cases h
  files _ := .inl rfl

theorem Inv.crash (h : Inv m) : Inv m.crash where
  sound _ _ h := by cases h
  latest := System.latest_initial
  length := rfl
  alone _ _ h := by cases h
  ready _ _ _ h := by cases h
  files := h.files

theorem ready_exited {place : WorkerAt} (h : place.isExited = true) (s : Session) : Ready place s := by
  cases place with
  | exited => trivial
  | spawned => cases h
  | before rest => cases h
  | entering phase rest => cases h
  | executing phase rest => cases h
  | returned phase rest result => cases h
  | finishing event => cases h

theorem restore_session {index : ℕ} {executor : Executor}
    (h : m.executors[index]? = some executor) : m.restore index (m.session executor) = m := by
  obtain ⟨hlt, hget⟩ := List.getElem?_eq_some_iff.1 h
  have hset : m.executors.set index ⟨executor.path, executor.failurePath, executor.transaction⟩ =
      m.executors := by
    rw [← hget]
    exact List.set_getElem_self hlt
  unfold restore session
  dsimp only
  rw [hset]

/-- A worker that has ended makes no call and takes no step. -/
theorem work_exited {index : ℕ} {supervisor : Supervisor} (answers : Answers)
    (hindex : m.system.supervisors[index]? = some supervisor)
    (hexited : supervisor.worker.place.isExited = true) : m.work index answers = m := by
  obtain ⟨hlt, hget⟩ := List.getElem?_eq_some_iff.1 hindex
  have hplace : supervisor.worker.place = .exited := by
    generalize supervisor.worker.place = place at hexited
    cases place <;> first | rfl | cases hexited
  have hstay : ∀ answer, supervisor.worker.step m.system.flags answer supervisor.state =
      (supervisor.worker, supervisor.state) := fun answer => by
    unfold Worker.step
    rw [hplace]
  have hsystem : ∀ answer, m.system.work index answer = m.system := fun answer => by
    unfold System.work
    rw [hindex]
    dsimp only
    rw [hstay]
    have hset : m.system.supervisors.set index supervisor = m.system.supervisors := by
      rw [← hget]
      exact List.set_getElem_self hlt
    rw [hset]
  unfold work
  rw [hindex]
  cases hexecutor : m.executors[index]? with
  | none => rfl
  | some executor =>
    have hcall : call m.system.flags supervisor.worker supervisor.state = none := by
      unfold call
      rw [hplace]
    dsimp only
    rw [hcall, hsystem]

/-- A step of a worker that still runs, whose executor ends in a session that suits it. -/
theorem Inv.work_system (h : Inv m) {index : ℕ} {supervisor : Supervisor}
    (hindex : m.system.supervisors[index]? = some supervisor)
    (hlive : supervisor.worker.place.isExited = false) (answer : Job.Answer) {s : Session}
    (hready : Ready (supervisor.worker.step m.system.flags answer supervisor.state).1.place s)
    (hfiles : ∀ path, statusAt s.files path = "" ∨
      ∃ entry ∈ s.persisted, entry.2 = statusAt s.files path) :
    Inv { m.restore index s with system := m.system.work index answer } := by
  obtain ⟨hlt, -⟩ := List.getElem?_eq_some_iff.1 hindex
  obtain ⟨hsound, -⟩ := h.sound.step h.latest (.work index answer)
  obtain ⟨hlength, hactive⟩ := System.work_length index answer m.system
  have hslot := h.alone index supervisor hindex hlive
  have hsupervisors : (m.system.work index answer).supervisors = m.system.supervisors.set index
      { supervisor with
        state := (supervisor.worker.step m.system.flags answer supervisor.state).2
        worker := (supervisor.worker.step m.system.flags answer supervisor.state).1 } := by
    unfold System.work
    rw [hindex]
  refine ⟨hsound, h.latest.step (.work index answer), ?_, ?_, ?_, hfiles⟩
  · show (m.executors.set index _).length = (m.system.work index answer).supervisors.length
    rw [List.length_set, hlength]
    exact h.length
  · intro job other hother hrunning
    show (m.system.work index answer).active = some job
    rw [hactive]
    by_cases hjob : index = job
    · rw [← hjob]
      exact hslot
    · change (m.system.work index answer).supervisors[job]? = some other at hother
      rw [hsupervisors, List.getElem?_set_ne hjob] at hother
      exact h.alone job other hother hrunning
  · intro job other executor' hother hexecutor'
    change (m.system.work index answer).supervisors[job]? = some other at hother
    change (m.executors.set index _)[job]? = some executor' at hexecutor'
    rw [hsupervisors] at hother
    by_cases hjob : index = job
    · subst hjob
      rw [List.getElem?_set_self hlt, Option.some.injEq] at hother
      rw [List.getElem?_set_self (by rw [h.length]; exact hlt), Option.some.injEq] at hexecutor'
      rw [← hother, ← hexecutor']
      exact hready
    · -- every other worker has ended
      rw [List.getElem?_set_ne hjob] at hother
      refine ready_exited ?_ _
      by_contra hrunning
      have hother' := h.alone job other hother (by simpa using hrunning)
      rw [hslot, Option.some.injEq] at hother'
      exact hjob hother'

/-- What a call does: it persists only what may be, and a phase that succeeds leaves its status. -/
theorem Inv.call_spec (h : Inv m) {index : ℕ} {supervisor : Supervisor} {executor : Executor}
    (hindex : m.system.supervisors[index]? = some supervisor)
    (hexecutor : m.executors[index]? = some executor) {c : Call}
    (hcall : call m.system.flags supervisor.worker supervisor.state = some c) (answers : Answers) :
    Grown (m.Written (.work index answers)) (m.session executor)
        (c.run answers (m.session executor)).2 ∧
      ∀ phase, c = .execute phase → (c.run answers (m.session executor)).1 = .ok () →
        Steady (c.run answers (m.session executor)).2 (leavesWith phase) := by
  cases c with
  | record phase message =>
    refine ⟨(recordTerminal_grown phase message answers.terminal _).mono fun _ hlawful =>
      .lawful hlawful, ?_⟩
    intro phase' hphase
    cases hphase
  | execute phase =>
    have hplace : ∃ rest, supervisor.worker.place = .executing phase rest := by
      unfold call at hcall
      generalize supervisor.worker.place = place at hcall
      cases place with
      | executing phase' rest =>
        simp only [Option.some.injEq, Call.execute.injEq] at hcall
        rw [hcall]
        exact ⟨rest, rfl⟩
      | spawned => cases hcall
      | before rest => cases rest <;> dsimp only at hcall <;> split_ifs at hcall <;> cases hcall
      | entering phase' rest => cases hcall
      | returned phase' rest result =>
        cases result <;> dsimp only at hcall <;> split_ifs at hcall <;> cases hcall
      | finishing event => cases hcall
      | exited => cases hcall
    have hready : phase = .prepare ∨ Steady (m.session executor) (entersWith phase) := by
      have hready := h.ready index supervisor executor hindex hexecutor
      obtain ⟨rest, hrest⟩ := hplace
      rw [hrest] at hready
      exact hready
    refine ⟨(executePhase_expected hready answers.phase).mono ?_, ?_⟩
    · rintro entry ⟨hlive, hexpected⟩
      cases hexpected with
      | lawful hlawful => exact .lawful hlawful
      | started hphase hwrite =>
        cases hallowed : statusTransition (statusAt m.files executor.path) "started" with
        | true =>
          exact .lawful
            ⟨show (rescueGuidance (some "started")).severity ≠ "unknown" by decide, hallowed⟩
        | false =>
          exact .breaks ⟨supervisor, executor, hindex, hexecutor, hlive,
            .inl ⟨hphase ▸ hplace, hwrite, hallowed⟩⟩ (.inl rfl)
      | image hphase hbody hwrite =>
        exact .breaks ⟨supervisor, executor, hindex, hexecutor, hlive,
          .inr ⟨hphase ▸ hplace, hbody, hwrite⟩⟩ (.inr rfl)
      | configure hphase =>
        subst hphase
        have hsteady := hready.resolve_left nofun
        exact .afterImage hsteady.file
    · intro phase' hphase hok
      cases hphase
      exact executePhase_leaves hready (Prod.ext hok rfl)

/-- The files of a grown session come from what was persisted. -/
theorem Inv.files_of_grown (h : Inv m) {Q : String × String → Prop} {executor : Executor}
    {s : Session} (hgrown : Grown Q (m.session executor) s) (path : String) :
    statusAt s.files path = "" ∨ ∃ entry ∈ s.persisted, entry.2 = statusAt s.files path := by
  obtain ⟨added, heq, -, hfiles⟩ := hgrown.entries
  rw [heq]
  rcases hfiles path with hsame | ⟨entry, hentry, hstatus⟩
  · rcases h.files path with hnone | ⟨entry, hentry, hstatus⟩
    · exact .inl (hsame.trans hnone)
    · exact .inr ⟨entry, List.mem_append_left _ hentry, hstatus.trans hsame.symm⟩
  · exact .inr ⟨entry, List.mem_append_right _ hentry, hstatus⟩

/-- A step of a worker. -/
theorem Inv.work (h : Inv m) (index : ℕ) (answers : Answers) :
    Inv (m.work index answers) ∧ ∃ added, (m.work index answers).persisted = m.persisted ++ added ∧
      ∀ entry ∈ added, m.Written (.work index answers) entry := by
  have hstay : Inv m ∧ ∃ added, m.persisted = m.persisted ++ added ∧
      ∀ entry ∈ added, m.Written (.work index answers) entry := ⟨h, [], by simp, by simp⟩
  cases hindex : m.system.supervisors[index]? with
  | none =>
    have hsame : m.work index answers = m := by
      unfold Machine.work
      rw [hindex]
    rw [hsame]
    exact hstay
  | some supervisor =>
    cases hlive : supervisor.worker.place.isExited with
    | true =>
      rw [work_exited answers hindex hlive]
      exact hstay
    | false =>
      obtain ⟨executor, hexecutor⟩ : ∃ executor, m.executors[index]? = some executor := by
        obtain ⟨hlt, -⟩ := List.getElem?_eq_some_iff.1 hindex
        exact ⟨_, List.getElem?_eq_getElem (by rw [h.length]; exact hlt)⟩
      have hready := h.ready index supervisor executor hindex hexecutor
      have htold := (h.sound index supervisor hindex).told
      unfold Machine.work
      rw [hindex, hexecutor]
      dsimp only
      cases hcall : call m.system.flags supervisor.worker supervisor.state with
      | none =>
        dsimp only
        have hstep : Ready (supervisor.worker.step m.system.flags ⟨.ok (), answers.mokState⟩
            supervisor.state).1.place (m.session executor) :=
          hready.step htold (fun _ => rfl) fun phase hphase => by
            rw [hcall] at hphase
            cases hphase
        have hinv := h.work_system hindex hlive ⟨.ok (), answers.mokState⟩ hstep h.files
        rw [restore_session hexecutor] at hinv
        exact ⟨hinv, [], by simp, by simp⟩
      | some c =>
        dsimp only
        obtain ⟨hgrown, hleaves⟩ := h.call_spec hindex hexecutor hcall answers
        have hfiles := h.files_of_grown hgrown
        obtain ⟨added, heq, hwritten, -⟩ := hgrown.entries
        generalize c.run answers (m.session executor) = called at hgrown hleaves hfiles heq ⊢
        obtain ⟨result, s⟩ := called
        have hnext : ∀ answer : Job.Answer, (answer.result = .ok () → result = .ok ()) →
            Inv { m.restore index s with system := m.system.work index answer } :=
          fun answer hanswer => by
            refine h.work_system hindex hlive answer (hready.step htold (fun hnone => ?_)
              fun phase hphase hok => ?_) hfiles
            · rw [hcall] at hnone
              cases hnone
            · rw [hcall, Option.some.injEq] at hphase
              exact hleaves phase hphase (hanswer hok)
        cases result with
        | ok _ => exact ⟨hnext _ fun _ => rfl, added, heq, hwritten⟩
        | error stop =>
          cases stop with
          | failed message => exact ⟨hnext _ fun hok => (by cases hok), added, heq, hwritten⟩
          | crashed =>
            refine ⟨⟨?_, System.latest_initial, rfl, ?_, ?_, hfiles⟩, added, heq, hwritten⟩
            · rintro _ _ hnone
              cases hnone
            · rintro _ _ hnone
              cases hnone
            · rintro _ _ _ hnone
              cases hnone

/-- A start that succeeds adds a worker that has taken no step. -/
theorem start_supervisors {system system' : System} {executor recorded spawned : Except String Unit}
    {receipt : Job.StartReceipt}
    (h : system.start executor recorded spawned = (.ok receipt, system')) :
    ∃ state flag, system'.supervisors = system.supervisors ++
      [⟨state, { jobId := receipt.jobId }, flag⟩] := by
  unfold System.start at h
  split_ifs at h
  · cases h
  · cases executor with
    | error error => cases h
    | ok _ =>
      dsimp only [System.startNew] at h
      split at h
      · cases h
      · rw [Prod.mk.injEq, Except.ok.injEq] at h
        rw [← h.1, ← h.2]
        exact ⟨_, _, rfl⟩

/-- A start that succeeds finds no worker running. -/
theorem Inv.start (h : Inv m) (path failurePath : String)
    (executor recorded spawned : Except String Unit) :
    Inv (m.step (.start path failurePath executor recorded spawned)) := by
  obtain ⟨hsound, -⟩ := h.sound.start h.latest executor recorded spawned
  have hlatest := h.latest.step (.start executor recorded spawned)
  change System.Latest (m.system.start executor recorded spawned).2 at hlatest
  unfold Machine.step
  dsimp only
  rcases System.start_cases executor recorded spawned m.system with
    ⟨error, flags, hstart⟩ | ⟨⟨receipt, system, hstart, -, -, hactive⟩, hfree, -, -, -⟩
  · rw [hstart] at hsound hlatest ⊢
    exact ⟨hsound, hlatest, h.length, h.alone, h.ready, h.files⟩
  · rw [hstart] at hsound hlatest ⊢
    obtain ⟨state, flag, hsupervisors⟩ := start_supervisors hstart
    have hexited : ∀ (job : ℕ) (supervisor : Supervisor),
        m.system.supervisors[job]? = some supervisor →
        supervisor.worker.place.isExited = true := fun job supervisor hjob => by
      by_contra hrunning
      have hlive : supervisor.worker.place.isExited = false := by simpa using hrunning
      have hslot : m.system.slot = some supervisor := by
        rw [System.slot, h.alone job supervisor hjob hlive]
        exact hjob
      refine hfree ?_
      rw [hslot, Option.map_some, (h.sound job supervisor hjob).running hlive]
    -- the jobs from before have ended, and the new worker has taken no step
    have hjobs : ∀ (job : ℕ) (supervisor : Supervisor),
        system.supervisors[job]? = some supervisor →
        supervisor.worker.place.isExited = true ∨
          job = m.system.supervisors.length ∧ supervisor.worker.place = .spawned :=
      fun job supervisor hjob => by
        rw [hsupervisors] at hjob
        rcases Nat.lt_or_ge job m.system.supervisors.length with hlt | hge
        · rw [List.getElem?_append_left hlt] at hjob
          exact .inl (hexited job supervisor hjob)
        · rw [List.getElem?_append_right hge] at hjob
          obtain ⟨hlast, hnew⟩ := List.getElem?_eq_some_iff.1 hjob
          rw [List.length_singleton] at hlast
          rw [List.getElem_singleton] at hnew
          exact .inr ⟨by omega, by rw [← hnew]⟩
    refine ⟨hsound, hlatest, ?_, ?_, ?_, h.files⟩
    · show (m.executors ++ [_]).length = system.supervisors.length
      rw [hsupervisors, List.length_append, List.length_append, h.length]
      rfl
    · intro job supervisor hjob hlive
      rcases hjobs job supervisor hjob with hdone | ⟨hlast, -⟩
      · rw [hdone] at hlive
        cases hlive
      · rw [hlast]
        exact hactive
    · intro job supervisor executor' hjob _
      rcases hjobs job supervisor hjob with hdone | ⟨-, hspawned⟩
      · exact ready_exited hdone _
      · rw [hspawned]
        trivial

/-- A cancel request touches no worker. -/
theorem cancel_worker {system : System} {jobId job : ℕ} {supervisor : Supervisor}
    (h : (system.cancel jobId).2.supervisors[job]? = some supervisor) :
    ∃ supervisor', system.supervisors[job]? = some supervisor' ∧
      supervisor'.worker = supervisor.worker := by
  unfold System.cancel at h
  split at h
  · rename_i index slot hactive hslot
    split_ifs at h
    · exact ⟨supervisor, h, rfl⟩
    · split at h
      · exact ⟨supervisor, h, rfl⟩
      · by_cases hjob : index = job
        · subst hjob
          have hindex : system.supervisors[index]? = some slot := by
            rw [System.slot, hactive] at hslot
            exact hslot
          obtain ⟨hlt, -⟩ := List.getElem?_eq_some_iff.1 hindex
          rw [List.getElem?_set_self hlt, Option.some.injEq] at h
          exact ⟨slot, hindex, by rw [← h]⟩
        · rw [List.getElem?_set_ne hjob] at h
          exact ⟨supervisor, h, rfl⟩
  · exact ⟨supervisor, h, rfl⟩

theorem Inv.cancel (h : Inv m) (jobId : ℕ) : Inv (m.step (.cancel jobId)) := by
  obtain ⟨hsound, -⟩ := h.sound.cancel jobId
  obtain ⟨hlength, hactive⟩ := System.cancel_length jobId m.system
  refine ⟨hsound, h.latest.step (.cancel jobId), h.length.trans hlength.symm, ?_, ?_, h.files⟩
  · intro job supervisor hjob hlive
    obtain ⟨supervisor', hjob', hworker⟩ := cancel_worker hjob
    show (m.system.cancel jobId).2.active = some job
    rw [hactive]
    exact h.alone job supervisor' hjob' (by rw [hworker]; exact hlive)
  · intro job supervisor executor hjob hexecutor
    obtain ⟨supervisor', hjob', hworker⟩ := cancel_worker hjob
    rw [← hworker]
    exact h.ready job supervisor' executor hjob' hexecutor

/-- Every step keeps the invariant and persists only what may be. -/
theorem Inv.step (h : Inv m) (step : MachineStep) :
    Inv (m.step step) ∧ ∃ added, (m.step step).persisted = m.persisted ++ added ∧
      ∀ entry ∈ added, m.Written step entry := by
  cases step with
  | start path failurePath executor recorded spawned =>
    refine ⟨h.start path failurePath executor recorded spawned, [], ?_, by simp⟩
    unfold Machine.step
    dsimp only
    split <;> simp
  | cancel jobId => exact ⟨h.cancel jobId, [], by simp [Machine.step], by simp⟩
  | work index answers => exact h.work index answers
  | crash => exact ⟨h.crash, [], by simp [Machine.step, Machine.crash], by simp⟩

theorem Inv.run (h : Inv m) (steps : List MachineStep) : Inv (m.run steps) := by
  induction steps generalizing m with
  | nil => exact h
  | cons step steps ih => exact ih (h.step step).1

theorem Inv.persisted_grows (h : Inv m) (steps : List MachineStep) :
    m.persisted <+: (m.run steps).persisted := by
  induction steps generalizing m with
  | nil => exact List.prefix_rfl
  | cons step steps ih =>
    obtain ⟨hinv, added, heq, -⟩ := h.step step
    exact (heq ▸ List.prefix_append _ added).trans (ih hinv)

/-! ### Lawful runs -/

/-- A step that breaks the law persists a status against it. -/
theorem Breaks.unlawful (h : Inv m) {step : MachineStep} (hbreaks : m.Breaks step) :
    ∃ entry ∈ (m.step step).persisted, ¬ Lawful entry := by
  cases step with
  | start path failurePath executor recorded spawned => exact hbreaks.elim
  | cancel jobId => exact hbreaks.elim
  | crash => exact hbreaks.elim
  | work index answers =>
    obtain ⟨supervisor, executor, hindex, hexecutor, hlive, hbreaks⟩ := hbreaks
    have hpersisted : ∀ phase rest, supervisor.worker.place = .executing phase rest →
        (m.work index answers).persisted =
          (executePhase phase answers.phase (m.session executor)).2.persisted :=
      fun phase rest hplace => by
        have hcall : call m.system.flags supervisor.worker supervisor.state =
            some (.execute phase) := by
          unfold call
          rw [hplace]
        unfold Machine.work
        rw [hindex, hexecutor]
        dsimp only
        rw [hcall]
        dsimp only [Call.run]
        generalize executePhase phase answers.phase (m.session executor) = called
        obtain ⟨result, s⟩ := called
        cases result with
        | ok _ => rfl
        | error stop => cases stop <;> rfl
    rcases hbreaks with ⟨⟨rest, hplace⟩, hwrite, hrefused⟩ | ⟨⟨rest, hplace⟩, hbody, hwrite⟩
    · refine ⟨(statusAt m.files executor.path, "started"), ?_, fun hlawful => ?_⟩
      · show _ ∈ (m.work index answers).persisted
        rw [hpersisted _ rest hplace]
        exact started_mem hlive hwrite (m.session executor)
      · have hallowed := hlawful.2
        rw [hrefused] at hallowed
        cases hallowed
    · refine ⟨("prepared", "image_complete"), ?_, by decide⟩
      have hready := h.ready index supervisor executor hindex hexecutor
      rw [hplace] at hready
      show _ ∈ (m.work index answers).persisted
      rw [hpersisted _ rest hplace]
      exact image_mem (hready.resolve_left nofun) hlive hbody hwrite

/-- After lawful statuses only, a step that does not break the law persists lawful ones. -/
theorem Written.lawful_of (h : Inv m) (hall : ∀ entry ∈ m.persisted, Lawful entry)
    {step : MachineStep} (hstep : ¬ m.Breaks step) {entry : String × String}
    (hentry : m.Written step entry) : Lawful entry := by
  cases hentry with
  | lawful hlawful => exact hlawful
  | breaks hbreaks _ => exact absurd hbreaks hstep
  | @afterImage path hfile =>
    -- the file would come from a status that the rescue mode does not know
    rcases h.files path with hnone | ⟨written, hwritten, hstatus⟩
    · rw [hfile] at hnone
      exact absurd hnone (by decide)
    · have hknown := (hall written hwritten).1
      rw [hstatus, hfile] at hknown
      exact absurd hknown (by decide)

theorem lawful_run (h : Inv m) (hall : ∀ entry ∈ m.persisted, Lawful entry)
    {steps : List MachineStep}
    (hsteps : ∀ before step after, steps = before ++ step :: after → ¬ (m.run before).Breaks step) :
    ∀ entry ∈ (m.run steps).persisted, Lawful entry := by
  induction steps generalizing m with
  | nil => exact hall
  | cons step steps ih =>
    obtain ⟨hinv, added, heq, hwritten⟩ := h.step step
    refine ih hinv (fun entry hentry => ?_) fun before step' after hafter =>
      hsteps (step :: before) step' after (by rw [hafter, List.cons_append])
    rw [heq, List.mem_append] at hentry
    rcases hentry with hold | hnew
    · exact hall entry hold
    · exact (hwritten entry hnew).lawful_of h hall (hsteps [] step steps rfl)

/-- What can go wrong: a job begins over a file with a status, or the status of the image phase. -/
def Known (entry : String × String) : Prop :=
  Lawful entry ∨ entry.2 = "started" ∨ entry.2 = "image_complete" ∨
    entry = ("image_complete", "configure_started")

theorem known_run (h : Inv m) (hall : ∀ entry ∈ m.persisted, Known entry)
    (steps : List MachineStep) : ∀ entry ∈ (m.run steps).persisted, Known entry := by
  induction steps generalizing m with
  | nil => exact hall
  | cons step steps ih =>
    obtain ⟨hinv, added, heq, hwritten⟩ := h.step step
    refine ih hinv fun entry hentry => ?_
    rw [heq, List.mem_append] at hentry
    rcases hentry with hold | hnew
    · exact hall entry hold
    · cases hwritten entry hnew with
      | lawful hlawful => exact .inl hlawful
      | breaks _ hstatus =>
        rcases hstatus with hstarted | himage
        · exact .inr (.inl hstarted)
        · exact .inr (.inr (.inl himage))
      | afterImage _ => exact .inr (.inr (.inr rfl))

theorem run_append (m : Machine) (steps steps' : List MachineStep) :
    m.run (steps ++ steps') = (m.run steps).run steps' := List.foldl_append

/-- A run persists only statuses that the rescue mode knows, each one allowed after the one it
replaces, exactly when none of its steps breaks the law. In any run only the first status of a job
and the one of the image phase, with its successor, are ever against it. -/
theorem statuses_lawful_iff (steps : List MachineStep) :
    ((∀ entry ∈ (run {} steps).persisted, Lawful entry) ↔
      ∀ before step after, steps = before ++ step :: after → ¬ (run {} before).Breaks step) ∧
    ∀ entry ∈ (run {} steps).persisted, Known entry := by
  refine ⟨⟨fun hall before step after hsteps hbreaks => ?_, fun hsteps => ?_⟩, ?_⟩
  · have hinv := inv_initial.run before
    obtain ⟨entry, hentry, hunlawful⟩ := hbreaks.unlawful hinv
    have hrun : run {} steps = ((run {} before).step step).run after := by
      rw [hsteps, run_append]
      rfl
    refine hunlawful (hall entry ?_)
    rw [hrun]
    exact ((hinv.step step).1.persisted_grows after).subset hentry
  · exact lawful_run inv_initial (fun entry hentry => by cases hentry) hsteps
  · exact known_run inv_initial (fun entry hentry => by cases hentry) steps

/-- A job whose first three phases succeed. -/
def imageWritten : List MachineStep :=
  .start "/run/kyth-installer/txn/transaction.json" "/run/kyth-installer/txn/failure.json" (.ok ())
    (.ok ()) (.ok ()) :: List.replicate 13 (.work 0 {})

/-- The image phase persists a status that the rescue mode does not know and that may not follow
the one before it. -/
theorem image_status_unknown :
    (¬ ∀ entry ∈ (run {} imageWritten).persisted, Lawful entry) ∧
      ("prepared", "image_complete") ∈ (run {} imageWritten).persisted ∧
      (rescueGuidance (some "image_complete")).severity = "unknown" ∧
      statusTransition "prepared" "image_complete" = false := by
  decide +kernel

end Machine

end Kyth.Transaction
