import Kyth.Installer.JobEvents
import Mathlib.Tactic

/-!
# One supervisor over any number of jobs

Calls of `start`, `cancel` and `replay` interleave with the steps of the workers. A call is as many
actions as it has critical sections: a start claims the slot and later launches the worker or
withdraws, a cancel marks the request under the lock and later stores into the flag.

Two fields of `Supervision` record what happened: every appended event with the job that appended it,
and every job that was active when a cancel call succeeded.

* `Inv` holds in every reachable state (`Inv.run`);
* `supervised_jobs`: at most one active job, contiguous event numbers, the story of every job, no
  `Done` after a successful cancel, and a worker that takes its steps ends.
-/

namespace Kyth.Job

open Word

/-- How far a job has come. -/
inductive Stage
  /-- The slot is claimed and no worker runs yet. -/
  | starting
  /-- No worker could be started. -/
  | withdrawn
  | running (worker : Worker)

/-- A job of a supervisor. -/
structure JobEntry where
  jobId : ℕ
  stage : Stage

def JobEntry.isActive (entry : JobEntry) : Bool :=
  match entry.stage with
  | .starting => true
  | .withdrawn => false
  | .running worker => !worker.place.isExited

/-- A supervisor with its jobs, numbered by the order of their claims. -/
structure Supervision where
  state : JobState := {}
  flags : List Bool := []
  jobs : List JobEntry := []
  /-- The flags that a cancel call has still to set. -/
  stores : List ℕ := []
  /-- The appended events, each with its job. -/
  trace : List (ℕ × JobEvent) := []
  /-- The jobs for which a cancel call returned `Ok`. -/
  cancelled : List ℕ := []

/-- A critical section or another step of a call, or a step of a worker. -/
inductive Action
  | start
  | launch (job : ℕ) (recorded spawned : Except String Unit)
  | cancel
  | store (flag : ℕ)
  | replay (lastEventId : ℕ)
  | work (job : ℕ) (answer : Answer)

namespace Supervision

/-- The jobs that hold the slot. -/
def activeJobs (s : Supervision) : List ℕ :=
  (List.range s.jobs.length).filter fun i => (s.jobs[i]?.map JobEntry.isActive).getD false

/-- One action. -/
def step (s : Supervision) : Action → Supervision
  | .start =>
      match claim s.flags.length s.state with
      | (.error _, _) => s
      | (.ok receipt, state) =>
          { s with state, flags := s.flags ++ [false], jobs := s.jobs ++ [⟨receipt.jobId, .starting⟩] }
  | .launch job recorded spawned =>
      match s.jobs[job]? with
      | some ⟨jobId, .starting⟩ =>
          match recorded, spawned with
          | .ok _, .ok _ => { s with jobs := s.jobs.set job ⟨jobId, .running { jobId }⟩ }
          | _, _ => { s with state := unclaim s.state, jobs := s.jobs.set job ⟨jobId, .withdrawn⟩ }
      | _ => s
  | .cancel =>
      match requestCancel s.state with
      | (.error _, _) => s
      | (.ok token, state) =>
          { s with state, stores := s.stores ++ token.toList
                   cancelled := s.cancelled ++ s.activeJobs }
  | .store flag => if flag ∈ s.stores then { s with flags := s.flags.set flag true } else s
  | .replay _ => s
  | .work job answer =>
      match s.jobs[job]? with
      | some ⟨jobId, .running worker⟩ =>
          { s with
            state := (worker.step s.flags answer s.state).2
            jobs := s.jobs.set job ⟨jobId, .running (worker.step s.flags answer s.state).1⟩
            trace := s.trace ++ ((worker.appends s.flags answer s.state).map fun kind =>
              (job, (⟨satAddU64 s.state.nextEventId 1, kind⟩ : JobEvent))).toList }
      | _ => s

/-- A run of actions. -/
def run (s : Supervision) (actions : List Action) : Supervision := actions.foldl step s

/-- The events of a job, in the order in which they were appended. -/
def toldBy (s : Supervision) (job : ℕ) : List JobEventKind :=
  (s.trace.filter fun entry => entry.1 = job).map fun entry => entry.2.kind

/-- What a job has told at some stage. -/
def ToldAt : Stage → List JobEventKind → Prop
  | .starting, told => told = []
  | .withdrawn, told => told = []
  | .running worker, told => Told worker.place told

/-- What holds in every reachable state. -/
structure Inv (s : Supervision) : Prop where
  owner : ∀ (i : ℕ) (entry : JobEntry), s.jobs[i]? = some entry → entry.isActive = true →
    i + 1 = s.jobs.length ∧ s.state.isRunning entry.jobId
  busy : s.state.workerActive = true →
    ∃ (i : ℕ) (entry : JobEntry), s.jobs[i]? = some entry ∧ entry.isActive = true
  workerId : ∀ (i jobId : ℕ) (worker : Worker), s.jobs[i]? = some ⟨jobId, .running worker⟩ →
    worker.jobId = jobId
  told : ∀ (i : ℕ) (entry : JobEntry), s.jobs[i]? = some entry → ToldAt entry.stage (s.toldBy i)
  known : ∀ entry ∈ s.trace, entry.1 < s.jobs.length
  nextId : s.state.nextEventId = min (2 ^ 64 - 1) s.trace.length
  ids : s.trace.map (fun entry => entry.2.id) =
    (List.range s.trace.length).map fun k => min (2 ^ 64 - 1) (k + 1)
  history : s.state.history = (s.trace.map Prod.snd).rtake maxEventHistory
  requested : ∀ i ∈ s.cancelled, i < s.jobs.length ∧
    (∀ event ∈ s.toldBy i, event.isDone = false) ∧
    ∀ entry : JobEntry, s.jobs[i]? = some entry → entry.isActive = true →
      s.state.runtime.cancelRequested = true

theorem inv_initial : Inv ({} : Supervision) := by
  constructor <;> simp [toldBy, maxEventHistory]

/-! ### Steps -/

section Step

variable {s : Supervision} {job : ℕ}

theorem getElem?_set_cases {l : List JobEntry} {i j : ℕ} {a entry : JobEntry}
    (h : (l.set j a)[i]? = some entry) :
    (i = j ∧ entry = a) ∨ (i ≠ j ∧ l[i]? = some entry) := by
  rw [List.getElem?_set] at h
  split_ifs at h with hij hlt
  · exact .inl ⟨hij.symm, (Option.some.inj h).symm⟩
  · exact .inr ⟨fun heq => hij heq.symm, h⟩

theorem getElem?_concat_cases {l : List JobEntry} {i : ℕ} {a entry : JobEntry}
    (h : (l ++ [a])[i]? = some entry) :
    (i = l.length ∧ entry = a) ∨ (i < l.length ∧ l[i]? = some entry) := by
  rcases lt_or_ge i l.length with hlt | hge
  · rw [List.getElem?_append_left hlt] at h
    exact .inr ⟨hlt, h⟩
  · rw [List.getElem?_append_right hge] at h
    obtain ⟨hzero, hentry⟩ := List.getElem?_eq_some_iff.1 h
    simp only [List.length_singleton, Nat.lt_one_iff] at hzero
    refine .inl ⟨by omega, ?_⟩
    rw [← hentry]
    simp

/-- The story of a job of which nothing was appended. -/
theorem Inv.toldBy_eq_nil (h : Inv s) (hjob : s.jobs.length ≤ job) : s.toldBy job = [] := by
  have hnone : s.trace.filter (fun entry => entry.1 = job) = [] := by
    rw [List.filter_eq_nil_iff]
    intro entry hentry heq
    have hlt := h.known entry hentry
    have hsame : entry.1 = job := by simpa using heq
    omega
  rw [toldBy, hnone, List.map_nil]

/-- A job that has not ended has told phases only. -/
theorem told_phases {entry : JobEntry} {told : List JobEventKind} (h : ToldAt entry.stage told)
    (hactive : entry.isActive = true) : ∃ before, before <+: phases ∧ told = before.map .phase := by
  obtain ⟨jobId, stage⟩ := entry
  cases stage with
  | starting => exact ⟨[], List.nil_prefix, h⟩
  | withdrawn => cases hactive
  | running worker =>
    obtain ⟨jobId', token, place⟩ := worker
    cases place with
    | spawned => exact ⟨[], List.nil_prefix, h⟩
    | before rest =>
      obtain ⟨before, hbefore, htold⟩ := h
      exact ⟨before, ⟨rest, hbefore.symm⟩, htold⟩
    | entering phase rest =>
      obtain ⟨before, hbefore, htold⟩ := h
      exact ⟨before, ⟨_, hbefore.symm⟩, htold⟩
    | executing phase rest =>
      obtain ⟨before, hbefore, htold⟩ := h
      exact ⟨before ++ [phase], ⟨rest, by simp [hbefore]⟩, htold⟩
    | returned phase rest result =>
      obtain ⟨before, hbefore, htold⟩ := h
      exact ⟨before ++ [phase], ⟨rest, by simp [hbefore]⟩, htold⟩
    | finishing event =>
      obtain ⟨-, -, before, hbefore, htold⟩ := h
      exact ⟨before, hbefore, htold⟩
    | exited => cases hactive

theorem isDone_eq_false_of_phases {before : List Phase} :
    ∀ event ∈ before.map JobEventKind.phase, event.isDone = false := by
  intro event hevent
  obtain ⟨phase, -, rfl⟩ := List.mem_map.1 hevent
  rfl

/-- With an idle slot no job is active. -/
theorem Inv.inactive (h : Inv s) (hidle : s.state.workerActive = false) {i : ℕ} {entry : JobEntry}
    (hentry : s.jobs[i]? = some entry) : entry.isActive = false := by
  by_contra hactive
  obtain ⟨-, -, hrunning⟩ := h.owner i entry hentry (by simpa using hactive)
  rw [hidle] at hrunning
  cases hrunning

/-- A claim takes an idle slot. -/
theorem Inv.start (h : Inv s) : Inv (s.step .start) := by
  unfold step claim
  by_cases hactive : s.state.workerActive = true
  · rw [if_pos hactive]
    exact h
  · rw [if_neg hactive]
    have hidle : s.state.workerActive = false := by simpa using hactive
    have hlast : (s.jobs ++ [(⟨satAddU64 s.state.nextJobId 1, .starting⟩ : JobEntry)])[s.jobs.length]? =
        some ⟨satAddU64 s.state.nextJobId 1, .starting⟩ := by simp
    refine ⟨?_, fun _ => ⟨_, _, hlast, rfl⟩, ?_, ?_, ?_, h.nextId, h.ids, h.history, ?_⟩
    · intro i entry hentry hentryActive
      rcases getElem?_concat_cases hentry with ⟨rfl, rfl⟩ | ⟨-, hold⟩
      · exact ⟨by simp, rfl, rfl⟩
      · rw [h.inactive hidle hold] at hentryActive
        cases hentryActive
    · intro i jobId worker hentry
      rcases getElem?_concat_cases hentry with ⟨-, hnew⟩ | ⟨-, hold⟩
      · cases hnew
      · exact h.workerId i jobId worker hold
    · intro i entry hentry
      rcases getElem?_concat_cases hentry with ⟨rfl, rfl⟩ | ⟨-, hold⟩
      · exact h.toldBy_eq_nil le_rfl
      · exact h.told i entry hold
    · intro entry hentry
      have hlt := h.known entry hentry
      simp only [List.length_append, List.length_singleton]
      omega
    · intro i hi
      obtain ⟨hlt, hdone, -⟩ := h.requested i hi
      refine ⟨by simp only [List.length_append, List.length_singleton]; omega, hdone, ?_⟩
      intro entry hentry hentryActive
      rcases getElem?_concat_cases hentry with ⟨heq, -⟩ | ⟨-, hold⟩
      · omega
      · rw [h.inactive hidle hold] at hentryActive
        cases hentryActive

/-- A starting job gets its worker, or gives the slot back. -/
theorem Inv.launch (h : Inv s) (recorded spawned : Except String Unit) :
    Inv (s.step (.launch job recorded spawned)) := by
  unfold step
  dsimp only
  split
  · rename_i jobId hjob
    obtain ⟨hlast, hrunning⟩ := h.owner job _ hjob rfl
    have htold : s.toldBy job = [] := h.told job _ hjob
    -- nothing else is active, so giving the slot back leaves nobody without it
    have honly : ∀ (i : ℕ) (entry : JobEntry), i ≠ job → s.jobs[i]? = some entry →
        entry.isActive = true → False := by
      intro i entry hne hentry hactive
      have hlength := (h.owner i entry hentry hactive).1
      omega
    have hthere : ∀ entry : JobEntry, (s.jobs.set job entry)[job]? = some entry := fun entry => by
      rw [List.getElem?_set_self (by omega)]
    split
    · refine ⟨?_, fun _ => ⟨job, _, hthere _, rfl⟩, ?_, ?_, ?_, h.nextId, h.ids, h.history, ?_⟩
      · intro i entry hentry hactive
        rcases getElem?_set_cases hentry with ⟨rfl, rfl⟩ | ⟨hne, hold⟩
        · exact ⟨by rw [List.length_set]; exact hlast, hrunning⟩
        · exact (honly i entry hne hold hactive).elim
      · intro i jobId' worker hentry
        rcases getElem?_set_cases hentry with ⟨-, hnew⟩ | ⟨-, hold⟩
        · cases hnew
          rfl
        · exact h.workerId i jobId' worker hold
      · intro i entry hentry
        rcases getElem?_set_cases hentry with ⟨rfl, rfl⟩ | ⟨-, hold⟩
        · exact htold
        · exact h.told i entry hold
      · simpa only [List.length_set] using h.known
      · intro i hi
        obtain ⟨hlt, hdone, hreq⟩ := h.requested i hi
        refine ⟨by rwa [List.length_set], hdone, fun entry hentry hactive => ?_⟩
        rcases getElem?_set_cases hentry with ⟨rfl, -⟩ | ⟨hne, hold⟩
        · exact hreq _ hjob rfl
        · exact (honly i entry hne hold hactive).elim
    · have hnone : ∀ (i : ℕ) (entry : JobEntry),
          (s.jobs.set job ⟨jobId, .withdrawn⟩)[i]? = some entry → entry.isActive = true →
          False := by
        intro i entry hentry hactive
        rcases getElem?_set_cases hentry with ⟨-, rfl⟩ | ⟨hne, hold⟩
        · cases hactive
        · exact honly i entry hne hold hactive
      refine ⟨fun i entry hentry hactive => (hnone i entry hentry hactive).elim,
        fun hbusy => (nomatch hbusy), ?_, ?_, ?_, h.nextId, h.ids, h.history, ?_⟩
      · intro i jobId' worker hentry
        rcases getElem?_set_cases hentry with ⟨-, hnew⟩ | ⟨-, hold⟩
        · cases hnew
        · exact h.workerId i jobId' worker hold
      · intro i entry hentry
        rcases getElem?_set_cases hentry with ⟨rfl, rfl⟩ | ⟨-, hold⟩
        · exact htold
        · exact h.told i entry hold
      · simpa only [List.length_set] using h.known
      · intro i hi
        obtain ⟨hlt, hdone, -⟩ := h.requested i hi
        exact ⟨by rwa [List.length_set], hdone,
          fun entry hentry hactive => (hnone i entry hentry hactive).elim⟩
  · exact h

theorem mem_activeJobs {i : ℕ} (hi : i ∈ s.activeJobs) :
    ∃ entry, s.jobs[i]? = some entry ∧ entry.isActive = true := by
  rw [activeJobs, List.mem_filter] at hi
  cases hentry : s.jobs[i]? with
  | none => simp [hentry] at hi
  | some entry => exact ⟨entry, rfl, by simpa [hentry] using hi.2⟩

/-- A cancel request marks the active job. -/
theorem Inv.cancel (h : Inv s) : Inv (s.step .cancel) := by
  unfold step requestCancel
  split_ifs with hactive
  · refine ⟨h.owner, h.busy, h.workerId, h.told, h.known, h.nextId, h.ids, h.history, ?_⟩
    intro i hi
    rcases List.mem_append.1 hi with hold | hnew
    · obtain ⟨hlt, hdone, -⟩ := h.requested i hold
      exact ⟨hlt, hdone, fun _ _ _ => rfl⟩
    · obtain ⟨entry, hentry, hentryActive⟩ := mem_activeJobs hnew
      obtain ⟨before, -, htold⟩ := told_phases (h.told i entry hentry) hentryActive
      refine ⟨(List.getElem?_eq_some_iff.1 hentry).1, ?_, fun _ _ _ => rfl⟩
      change ∀ event ∈ s.toldBy i, _
      rw [htold]
      exact isDone_eq_false_of_phases
  · exact h

/-- The late store of a cancel call sets a flag. -/
theorem Inv.store (h : Inv s) (flag : ℕ) : Inv (s.step (.store flag)) := by
  unfold step
  dsimp only
  split_ifs
  · exact ⟨h.owner, h.busy, h.workerId, h.told, h.known, h.nextId, h.ids, h.history, h.requested⟩
  · exact h

/-- A full history that takes one more event. -/
theorem pushEvent_rtake (events : List JobEvent) (id : ℕ) (kind : JobEventKind) :
    pushEvent (events.rtake maxEventHistory) id kind =
      (events ++ [(⟨id, kind⟩ : JobEvent)]).rtake maxEventHistory := by
  obtain ⟨n, hsucc⟩ : ∃ n, maxEventHistory = n + 1 := ⟨1023, rfl⟩
  have hshort : (events.rtake (n + 1)).rtake n = events.rtake n := by
    rw [List.rtake_eq_reverse_take_reverse, List.rtake_eq_reverse_take_reverse,
      List.rtake_eq_reverse_take_reverse, List.reverse_reverse, List.take_take,
      Nat.min_eq_left (Nat.le_succ n)]
  unfold pushEvent
  rw [hsucc, List.rtake_concat_succ, List.rtake_concat_succ, hshort]

/-- The steps of a worker whose job has the slot. -/
theorem Inv.work_running {jobId : ℕ} {worker : Worker} (answer : Answer) (h : Inv s)
    (hjob : s.jobs[job]? = some ⟨jobId, .running worker⟩)
    (hlive : worker.place.isExited = false) : Inv (s.step (.work job answer)) := by
  have hid : worker.jobId = jobId := h.workerId job jobId worker hjob
  have hactive : JobEntry.isActive ⟨jobId, .running worker⟩ = true := by
    simp only [JobEntry.isActive, hlive, Bool.not_false]
  obtain ⟨hlast, hrunning⟩ := h.owner job _ hjob hactive
  have hstepped := @Worker.step_of_running s.flags answer worker s.state (hid ▸ hrunning) hlive
  have hstep : s.step (.work job answer) =
      { s with
        state := (worker.step s.flags answer s.state).2
        jobs := s.jobs.set job ⟨jobId, .running (worker.step s.flags answer s.state).1⟩
        trace := s.trace ++ ((worker.appends s.flags answer s.state).map fun kind =>
          (job, (⟨satAddU64 s.state.nextEventId 1, kind⟩ : JobEvent))).toList } := by
    simp only [step, hjob]
  rw [hstep]
  generalize worker.appends s.flags answer s.state = appended at hstepped ⊢
  generalize (worker.step s.flags answer s.state).1 = worker' at hstepped ⊢
  generalize (worker.step s.flags answer s.state).2 = state' at hstepped ⊢
  have htoldBy : ∀ i, ({ s with
      state := state', jobs := s.jobs.set job ⟨jobId, .running worker'⟩
      trace := s.trace ++ (appended.map fun kind =>
        (job, (⟨satAddU64 s.state.nextEventId 1, kind⟩ : JobEvent))).toList } : Supervision).toldBy i =
      s.toldBy i ++ if i = job then appended.toList else [] := by
    intro i
    simp only [toldBy, List.filter_append, List.map_append, List.append_cancel_left_eq]
    cases appended with
    | none => simp
    | some kind =>
      by_cases hi : i = job
      · simp [hi]
      · simp [hi, Ne.symm hi]
  have honly : ∀ (i : ℕ) (entry : JobEntry), i ≠ job → s.jobs[i]? = some entry →
      entry.isActive = true → False := by
    intro i entry hne hentry hentryActive
    have hlength := (h.owner i entry hentry hentryActive).1
    omega
  refine ⟨?_, ?_, ?_, ?_, ?_, ?_, ?_, ?_, ?_⟩
  · intro i entry hentry hentryActive
    rcases getElem?_set_cases hentry with ⟨rfl, rfl⟩ | ⟨hne, hold⟩
    · refine ⟨by rw [List.length_set]; exact hlast, hstepped.stateJobId.trans hrunning.1, ?_⟩
      rw [hstepped.active]
      exact hentryActive
    · exact (honly i entry hne hold hentryActive).elim
  · intro hbusy
    refine ⟨job, _, List.getElem?_set_self (by omega), ?_⟩
    exact hstepped.active.symm.trans hbusy
  · intro i jobId' worker'' hentry
    rcases getElem?_set_cases hentry with ⟨-, hnew⟩ | ⟨-, hold⟩
    · cases hnew
      exact hstepped.jobId.trans hid
    · exact h.workerId i jobId' worker'' hold
  · intro i entry hentry
    rw [htoldBy]
    rcases getElem?_set_cases hentry with ⟨rfl, rfl⟩ | ⟨hne, hold⟩
    · rw [if_pos rfl]
      exact hstepped.told _ (h.told i _ hjob)
    · rw [if_neg hne, List.append_nil]
      exact h.told i entry hold
  · intro entry hentry
    rw [List.length_set]
    rcases List.mem_append.1 hentry with hold | hnew
    · exact h.known entry hold
    · rw [Option.mem_toList, Option.map_eq_some_iff] at hnew
      obtain ⟨kind, -, rfl⟩ := hnew
      change job < s.jobs.length
      omega
  · rw [hstepped.nextEventId, h.nextId]
    cases appended with
    | none => simp
    | some kind =>
      simp only [Option.isSome_some, if_true, Option.map_some, Option.toList_some,
        List.length_append, List.length_singleton, satAddU64]
      omega
  · cases appended with
    | none => simpa using h.ids
    | some kind =>
      simp only [Option.map_some, Option.toList_some, List.map_append, List.length_append,
        List.length_singleton, List.range_succ, h.ids, List.map_cons, List.map_nil, h.nextId,
        satAddU64]
      congr 2
      omega
  · rw [hstepped.history]
    cases appended with
    | none => simpa using h.history
    | some kind =>
      rw [Option.map_some, Option.getD_some, h.history, pushEvent_rtake]
      simp only [Option.map_some, Option.toList_some, List.map_append, List.map_cons, List.map_nil]
  · intro i hi
    obtain ⟨hlt, hdone, hreq⟩ := h.requested i hi
    rw [htoldBy]
    refine ⟨by rwa [List.length_set], ?_, fun entry hentry hentryActive => ?_⟩
    · intro event hevent
      rcases List.mem_append.1 hevent with hold | hnew
      · exact hdone event hold
      · split_ifs at hnew with hij
        · subst hij
          rw [Option.mem_toList] at hnew
          by_contra hisDone
          have hfresh := hstepped.done _ event (h.told i _ hjob) hnew (by simpa using hisDone)
          rw [hreq _ hjob hactive] at hfresh
          cases hfresh
        · cases hnew
    · rcases getElem?_set_cases hentry with ⟨rfl, rfl⟩ | ⟨hne, hold⟩
      · rw [hstepped.requested (by simpa [JobEntry.isActive] using hentryActive)]
        exact hreq _ hjob hactive
      · exact (honly i entry hne hold hentryActive).elim

/-- A worker that has ended does nothing. -/
theorem work_exited {jobId : ℕ} {worker : Worker} (answer : Answer)
    (hjob : s.jobs[job]? = some ⟨jobId, .running worker⟩)
    (hexited : worker.place.isExited = true) : s.step (.work job answer) = s := by
  obtain ⟨jobId', token, place⟩ := worker
  cases place with
  | exited =>
    have hset : s.jobs.set job ⟨jobId, .running ⟨jobId', token, .exited⟩⟩ = s.jobs := by
      obtain ⟨hlt, hget⟩ := List.getElem?_eq_some_iff.1 hjob
      rw [← hget]
      exact List.set_getElem_self hlt
    simp [step, hjob, Worker.step, Worker.appends, hset]
  | spawned => cases hexited
  | before rest => cases hexited
  | entering phase rest => cases hexited
  | executing phase rest => cases hexited
  | returned phase rest result => cases hexited
  | finishing event => cases hexited

theorem Inv.work (h : Inv s) (answer : Answer) : Inv (s.step (.work job answer)) := by
  cases hjob : s.jobs[job]? with
  | none =>
    rw [step, hjob]
    exact h
  | some entry =>
    obtain ⟨jobId, stage⟩ := entry
    cases stage with
    | starting =>
      rw [step, hjob]
      exact h
    | withdrawn =>
      rw [step, hjob]
      exact h
    | running worker =>
      cases hlive : worker.place.isExited with
      | true =>
        rw [work_exited answer hjob hlive]
        exact h
      | false => exact h.work_running answer hjob hlive

theorem Inv.step (h : Inv s) (action : Action) : Inv (s.step action) := by
  cases action with
  | start => exact h.start
  | launch job recorded spawned => exact h.launch recorded spawned
  | cancel => exact h.cancel
  | store flag => exact h.store flag
  | replay lastEventId => exact h
  | work job answer => exact h.work answer

end Step

/-- The invariant holds in every reachable state. -/
theorem Inv.run {s : Supervision} (h : Inv s) (actions : List Action) : Inv (s.run actions) := by
  induction actions generalizing s with
  | nil => exact h
  | cons action actions ih => exact ih (h.step action)

theorem run_append (s : Supervision) (actions actions' : List Action) :
    s.run (actions ++ actions') = (s.run actions).run actions' := List.foldl_append

/-! ### Progress -/

/-- A step of the worker of a job. -/
def isWorkOf (job : ℕ) : Action → Bool
  | .work other _ => other == job
  | _ => false

theorem stepsLeft_eq_zero {place : WorkerAt} (h : place.stepsLeft = 0) : place.isExited = true := by
  cases place with
  | exited => rfl
  | spawned => simp [WorkerAt.stepsLeft] at h
  | before rest => simp [WorkerAt.stepsLeft] at h
  | entering phase rest => simp [WorkerAt.stepsLeft] at h
  | executing phase rest => simp [WorkerAt.stepsLeft] at h
  | returned phase rest result => simp [WorkerAt.stepsLeft] at h
  | finishing event => simp [WorkerAt.stepsLeft] at h

theorem stepsLeft_of_exited {place : WorkerAt} (h : place.isExited = true) :
    place.stepsLeft = 0 := by
  cases place with
  | exited => rfl
  | spawned => cases h
  | before rest => cases h
  | entering phase rest => cases h
  | executing phase rest => cases h
  | returned phase rest result => cases h
  | finishing event => cases h

/-- An action keeps the worker of a job, and a step of its own brings it nearer to its end. -/
theorem step_worker {s : Supervision} (h : Inv s) {job jobId : ℕ} {worker : Worker}
    (hjob : s.jobs[job]? = some ⟨jobId, .running worker⟩) (action : Action) :
    ∃ worker', (s.step action).jobs[job]? = some ⟨jobId, .running worker'⟩ ∧
      worker'.place.stepsLeft ≤ worker.place.stepsLeft - (if isWorkOf job action then 1 else 0) := by
  have hkept : ∀ other entry, other ≠ job → (s.jobs.set other entry)[job]? =
      some ⟨jobId, .running worker⟩ := fun other entry hne => by
    rw [List.getElem?_set_ne hne]
    exact hjob
  cases action with
  | start =>
    refine ⟨worker, ?_, le_rfl⟩
    unfold step
    dsimp only
    split
    · exact hjob
    · obtain ⟨hlt, -⟩ := List.getElem?_eq_some_iff.1 hjob
      rw [List.getElem?_append_left hlt]
      exact hjob
  | launch other recorded spawned =>
    refine ⟨worker, ?_, le_rfl⟩
    unfold step
    dsimp only
    split
    · rename_i jobId' hother
      have hne : other ≠ job := by
        rintro rfl
        rw [hjob] at hother
        cases hother
      split
      · exact hkept other _ hne
      · exact hkept other _ hne
    · exact hjob
  | cancel =>
    refine ⟨worker, ?_, le_rfl⟩
    unfold step
    dsimp only
    split <;> exact hjob
  | store flag =>
    refine ⟨worker, ?_, le_rfl⟩
    unfold step
    dsimp only
    split_ifs <;> exact hjob
  | replay lastEventId => exact ⟨worker, hjob, le_rfl⟩
  | work other answer =>
    by_cases hother : other = job
    · subst hother
      simp only [isWorkOf, beq_self_eq_true, if_true]
      cases hlive : worker.place.isExited with
      | true =>
        rw [work_exited answer hjob hlive]
        refine ⟨worker, hjob, ?_⟩
        rw [stepsLeft_of_exited hlive]
      | false =>
        have hactive : JobEntry.isActive ⟨jobId, .running worker⟩ = true := by
          simp only [JobEntry.isActive, hlive, Bool.not_false]
        obtain ⟨hlast, hrunning⟩ := h.owner other _ hjob hactive
        have hid : worker.jobId = jobId := h.workerId other jobId worker hjob
        have hprogress := (@Worker.step_of_running s.flags answer worker s.state
          (hid ▸ hrunning) hlive).progress
        refine ⟨(worker.step s.flags answer s.state).1, ?_, Nat.le_sub_one_of_lt hprogress⟩
        simp only [step, hjob, List.getElem?_set_self (by omega : other < s.jobs.length)]
    · refine ⟨worker, ?_, by simp [isWorkOf, hother]⟩
      unfold step
      dsimp only
      split
      · exact hkept other _ hother
      · exact hjob

/-- A worker that has taken all its steps has ended. -/
theorem run_worker {s : Supervision} (h : Inv s) {job jobId : ℕ} {worker : Worker}
    (hjob : s.jobs[job]? = some ⟨jobId, .running worker⟩) (actions : List Action) :
    ∃ worker', (s.run actions).jobs[job]? = some ⟨jobId, .running worker'⟩ ∧
      worker'.place.stepsLeft ≤ worker.place.stepsLeft - actions.countP (isWorkOf job) := by
  induction actions generalizing s worker with
  | nil => exact ⟨worker, hjob, le_rfl⟩
  | cons action actions ih =>
    obtain ⟨worker₁, hjob₁, hle₁⟩ := step_worker h hjob action
    obtain ⟨worker₂, hjob₂, hle₂⟩ := ih (h.step action) hjob₁
    refine ⟨worker₂, hjob₂, ?_⟩
    rw [List.countP_cons]
    omega

/-- A job has at most as many steps before it as a new one. -/
theorem stepsLeft_le {worker : Worker} {told : List JobEventKind} (h : Told worker.place told) :
    worker.place.stepsLeft ≤ 27 := by
  obtain ⟨jobId, token, place⟩ := worker
  have hlength : ∀ {before rest : List Phase}, phases = before ++ rest → rest.length ≤ 6 := by
    intro before rest heq
    have hlen := congrArg List.length heq
    rw [List.length_append] at hlen
    have hsix : phases.length = 6 := rfl
    omega
  cases place with
  | spawned => exact le_rfl
  | before rest =>
    obtain ⟨before, hbefore, -⟩ := h
    have hle := hlength hbefore
    simp only [WorkerAt.stepsLeft]
    omega
  | entering phase rest =>
    obtain ⟨before, hbefore, -⟩ := h
    have hle := hlength hbefore
    simp only [WorkerAt.stepsLeft, List.length_cons] at hle ⊢
    omega
  | executing phase rest =>
    obtain ⟨before, hbefore, -⟩ := h
    have hle := hlength hbefore
    simp only [WorkerAt.stepsLeft, List.length_cons] at hle ⊢
    omega
  | returned phase rest result =>
    obtain ⟨before, hbefore, -⟩ := h
    have hle := hlength hbefore
    simp only [WorkerAt.stepsLeft, List.length_cons] at hle ⊢
    omega
  | finishing event =>
    simp only [WorkerAt.stepsLeft]
    omega
  | exited =>
    simp only [WorkerAt.stepsLeft]
    omega

/-! ### What holds of every run -/

/-- At most one job holds the slot. -/
def OneActive (s : Supervision) : Prop :=
  ∀ (i j : ℕ) (a b : JobEntry), s.jobs[i]? = some a → s.jobs[j]? = some b →
    a.isActive = true → b.isActive = true → i = j

/-- The numbers of the appended events are 1, 2, 3 and so on. -/
def ContiguousIds (s : Supervision) : Prop :=
  s.trace.map (fun entry => entry.2.id) = List.range' 1 s.trace.length

/-- A spawned job has told the first phases in their order and, once its worker has ended, one
terminal event after them. -/
def StoriesTold (s : Supervision) : Prop :=
  ∀ (i jobId : ℕ) (worker : Worker), s.jobs[i]? = some ⟨jobId, .running worker⟩ →
    ∃ before event, before <+: phases ∧ event.isTerminal = true ∧
      s.toldBy i = before.map .phase ++ if worker.place.isExited then [event] else []

/-- No job for which a cancel call returned `Ok` is ever reported as done. -/
def CancelsHonoured (s : Supervision) : Prop :=
  ∀ i ∈ s.cancelled, ∀ event ∈ s.toldBy i, event.isDone = false

theorem Inv.oneActive {s : Supervision} (h : Inv s) : s.OneActive := by
  intro i j a b ha hb hactive hactive'
  have hi := (h.owner i a ha hactive).1
  have hj := (h.owner j b hb hactive').1
  omega

theorem Inv.contiguousIds {s : Supervision} (h : Inv s) (hlength : s.trace.length < 2 ^ 64) :
    s.ContiguousIds := by
  unfold ContiguousIds
  rw [h.ids, List.range'_eq_map_range]
  refine List.map_congr_left fun k hk => ?_
  rw [List.mem_range] at hk
  omega

theorem Inv.storiesTold {s : Supervision} (h : Inv s) : s.StoriesTold := by
  intro i jobId worker hjob
  have htold := h.told i _ hjob
  cases hexited : worker.place.isExited with
  | false =>
    have hactive : JobEntry.isActive ⟨jobId, .running worker⟩ = true := by
      simp only [JobEntry.isActive, hexited, Bool.not_false]
    obtain ⟨before, hbefore, heq⟩ := told_phases htold hactive
    exact ⟨before, cancelledEvent .complete, hbefore, rfl, by simpa using heq⟩
  | true =>
    obtain ⟨jobId', token, place⟩ := worker
    cases place with
    | exited =>
      obtain ⟨before, event, hbefore, hterminal, heq⟩ := htold
      exact ⟨before, event, hbefore, hterminal, by simpa using heq⟩
    | spawned => cases hexited
    | before rest => cases hexited
    | entering phase rest => cases hexited
    | executing phase rest => cases hexited
    | returned phase rest result => cases hexited
    | finishing event => cases hexited

/-- Every interleaving: at most one active job, contiguous event numbers up to the last one a `u64`
has, whole stories, and no `Done` after a successful cancel. The history is the end of what was
appended, and a spawned worker that takes 27 steps has ended. -/
theorem supervised_jobs (actions : List Action) :
    OneActive (run {} actions) ∧
      ((run {} actions).trace.length < 2 ^ 64 → ContiguousIds (run {} actions)) ∧
      (run {} actions).state.history =
        ((run {} actions).trace.map Prod.snd).rtake maxEventHistory ∧
      StoriesTold (run {} actions) ∧ CancelsHonoured (run {} actions) ∧
      ∀ (job jobId : ℕ) (worker : Worker) (later : List Action),
        (run {} actions).jobs[job]? = some ⟨jobId, .running worker⟩ →
        27 ≤ later.countP (isWorkOf job) →
        ∃ worker', (run {} (actions ++ later)).jobs[job]? = some ⟨jobId, .running worker'⟩ ∧
          worker'.place.isExited = true := by
  have h : Inv (run {} actions) := inv_initial.run actions
  refine ⟨h.oneActive, h.contiguousIds, h.history, h.storiesTold, fun i hi => (h.requested i hi).2.1,
    fun job jobId worker later hjob hsteps => ?_⟩
  obtain ⟨worker', hjob', hle⟩ := run_worker h hjob later
  have hmost := stepsLeft_le (h.told job _ hjob)
  rw [run_append]
  exact ⟨worker', hjob', stepsLeft_eq_zero (by omega)⟩

/-! ### The last number -/

/-- The appended events are never taken back. -/
theorem trace_grows (s : Supervision) (actions : List Action) :
    s.trace <+: (s.run actions).trace := by
  induction actions generalizing s with
  | nil => exact List.prefix_rfl
  | cons action actions ih =>
    refine List.IsPrefix.trans ?_ (ih (s.step action))
    cases action with
    | start =>
      unfold step
      dsimp only
      split <;> exact List.prefix_rfl
    | launch job recorded spawned =>
      unfold step
      dsimp only
      split
      · split <;> exact List.prefix_rfl
      · exact List.prefix_rfl
    | cancel =>
      unfold step
      dsimp only
      split <;> exact List.prefix_rfl
    | store flag =>
      unfold step
      dsimp only
      split_ifs <;> exact List.prefix_rfl
    | replay lastEventId => exact List.prefix_rfl
    | work job answer =>
      unfold step
      dsimp only
      split
      · exact List.prefix_append _ _
      · exact List.prefix_rfl

theorem work_length (s : Supervision) (job : ℕ) (answer : Answer) (n : ℕ) :
    (s.run (List.replicate n (.work job answer))).jobs.length = s.jobs.length := by
  induction n generalizing s with
  | zero => rfl
  | succ n ih =>
    rw [List.replicate_succ]
    refine (ih (s.step (.work job answer))).trans ?_
    unfold step
    dsimp only
    split
    · exact List.length_set
    · rfl

/-- On an idle slot a job can be run from its start to its end. -/
theorem exists_longer_run {s : Supervision} (h : Inv s) (hidle : s.state.workerActive = false) :
    ∃ actions, (s.run actions).state.workerActive = false ∧
      s.trace.length < (s.run actions).trace.length := by
  have hworks : (List.replicate 27 (Action.work s.jobs.length ⟨.ok (), none⟩)).countP
      (isWorkOf s.jobs.length) = 27 := by
    simp [isWorkOf]
  refine ⟨[.start, .launch s.jobs.length (.ok ()) (.ok ())] ++
    List.replicate 27 (.work s.jobs.length ⟨.ok (), none⟩), ?_⟩
  rw [run_append]
  generalize hlaunched : s.run [.start, .launch s.jobs.length (.ok ()) (.ok ())] = launched
  have hinv : Inv launched := hlaunched ▸ h.run _
  have hjob : ∃ jobId, launched.jobs[s.jobs.length]? =
      some ⟨jobId, .running { jobId }⟩ ∧ launched.jobs.length = s.jobs.length + 1 := by
    refine ⟨satAddU64 s.state.nextJobId 1, ?_⟩
    rw [← hlaunched]
    simp [run, step, claim, hidle]
  obtain ⟨jobId, hjob, hlength⟩ := hjob
  obtain ⟨worker, hworker, hle⟩ := run_worker hinv hjob
    (List.replicate 27 (.work s.jobs.length ⟨.ok (), none⟩))
  have hlength' := work_length launched s.jobs.length ⟨.ok (), none⟩ 27
  have hinv' := hinv.run (List.replicate 27 (.work s.jobs.length ⟨.ok (), none⟩))
  have hgrown : s.trace <+: (launched.run
      (List.replicate 27 (.work s.jobs.length ⟨.ok (), none⟩))).trace :=
    (hlaunched ▸ trace_grows s _).trans (trace_grows launched _)
  rw [hworks] at hle
  generalize launched.run (List.replicate 27 (.work s.jobs.length ⟨.ok (), none⟩)) = ended
    at hworker hlength' hinv' hgrown ⊢
  have hexited : worker.place.isExited = true := by
    exact stepsLeft_eq_zero (Nat.le_zero.1 hle)
  constructor
  · -- the only job that could have the slot is the one that has just ended
    by_contra hbusy
    obtain ⟨i, entry, hentry, hactive⟩ := hinv'.busy (by simpa using hbusy)
    have hi := (hinv'.owner i entry hentry hactive).1
    have hsame : i = s.jobs.length := by omega
    rw [hsame, hworker] at hentry
    cases hentry
    simp [JobEntry.isActive, hexited] at hactive
  · obtain ⟨before, event, -, -, htold⟩ := hinv'.storiesTold _ _ _ hworker
    rw [if_pos hexited] at htold
    have hmem : event ∈ ended.toldBy s.jobs.length := by
      rw [htold]
      simp
    obtain ⟨entry, hentry, -⟩ := List.mem_map.1 hmem
    obtain ⟨hentry, hof⟩ := List.mem_filter.1 hentry
    rw [decide_eq_true_eq] at hof
    refine lt_of_le_of_ne hgrown.length_le fun heq => ?_
    rw [← hgrown.eq_of_length heq] at hentry
    have hlt := h.known entry hentry
    omega

theorem exists_run_of_length (n : ℕ) :
    ∃ actions, (run {} actions).state.workerActive = false ∧
      n ≤ (run {} actions).trace.length := by
  induction n with
  | zero => exact ⟨[], rfl, Nat.zero_le _⟩
  | succ n ih =>
    obtain ⟨actions, hidle, hle⟩ := ih
    obtain ⟨more, hidle', hlt⟩ := exists_longer_run (inv_initial.run actions) hidle
    rw [← run_append] at hidle' hlt
    exact ⟨actions ++ more, hidle', by omega⟩

/-- The numbers of the events do not stay distinct for ever: the last one of a `u64` is given out
again and again. -/
theorem event_ids_saturate : ¬ ∀ actions, ContiguousIds (run {} actions) := by
  intro hall
  obtain ⟨actions, -, hlength⟩ := exists_run_of_length (2 ^ 64)
  have hids := (inv_initial.run actions).ids
  rw [hall actions] at hids
  have hinside : 2 ^ 64 - 1 < (run {} actions).trace.length := by omega
  have hlast := congrArg (fun l => l[2 ^ 64 - 1]?) hids
  rw [List.getElem?_map, List.getElem?_range' hinside, List.getElem?_range hinside,
    Option.map_some, Option.some.injEq] at hlast
  omega

end Supervision

end Kyth.Job
