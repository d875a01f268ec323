import Kyth.Installer.JobEvents
import Kyth.Installer.JobRegistry
import Mathlib.Tactic

/-!
# The event stream of the daemon (`native_stream` in `installer_daemon.rs`)

A client reads the events of the job in the slot. It remembers the number of the last event it got,
and the stream sends what the supervisor in the slot has after that number. Every supervisor numbers
its events from 1, so a number says nothing about the events of a later job.

`streams_complete_iff` says exactly when no event is skipped: no turn of a stream starts from a
number of an earlier job while the job in the slot has events.
-/

namespace Kyth.Job

open Word

/-- `NativeJobRegistry::replay`. -/
def System.replay (s : System) (lastEventId : ℕ) : Option EventReplay :=
  s.slot.map fun supervisor => replayLocked supervisor.state lastEventId

/-- The frames of one turn of the loop: a stream ends behind a terminal event. -/
def upToTerminal : List JobEvent → List JobEvent
  | [] => []
  | event :: events => event :: if event.kind.isTerminal then [] else upToTerminal events

/-- One turn of the loop of `native_stream` for a client that got `lastEventId`, where `sent` is the
number of the next event. -/
def System.streamTurn (s : System) (lastEventId : ℕ) : List JobEvent :=
  let sent := satAddU64 lastEventId 1
  match s.replay (sent - 1) with
  | some replay => upToTerminal replay.events
  | none => []

/-- A client: the number of the last event it got, the job that event was of, and all it got. -/
structure Client where
  last : ℕ := 0
  source : Option ℕ := none
  received : List (ℕ × JobEvent) := []

/-- The registry and a client. -/
structure Session where
  system : System := {}
  client : Client := {}

/-- Something happens to the registry, or a stream takes a turn of which some frames arrive. When
not all of them do, the client connects again from the last one it got. -/
inductive SessionStep
  | registry (event : Event)
  | turn (arrived : ℕ)

/-- The client with the frames that arrived. -/
def Client.receive (client : Client) (job : ℕ) (events : List JobEvent) : Client :=
  match events.getLast? with
  | none => client
  | some event =>
      { last := event.id, source := some job
        received := client.received ++ events.map fun event => (job, event) }

namespace Session

/-- One step. -/
def step (s : Session) : SessionStep → Session
  | .registry event => { s with system := (s.system.step event).2 }
  | .turn arrived =>
      match s.system.active with
      | some job =>
          { s with
            client := s.client.receive job ((s.system.streamTurn s.client.last).take arrived) }
      | none => s

/-- A run. -/
def run (s : Session) (steps : List SessionStep) : Session := steps.foldl step s

/-- A turn that now starts sends every event of the job in the slot that the client has not got, or
the replay asks for a reset. -/
def Complete (s : Session) : Prop :=
  ∀ (job : ℕ) (supervisor : Supervisor), s.system.active = some job →
    s.system.supervisors[job]? = some supervisor →
    (replayLocked supervisor.state s.client.last).resetRequired = true ∨
      ∀ event ∈ supervisor.state.history,
        (job, event) ∈ s.client.received ∨ event ∈ s.system.streamTurn s.client.last

/-- The client has a number of an earlier job, and the job in the slot has events. -/
def Stale (s : Session) : Prop :=
  s.client.last ≠ 0 ∧ s.client.source ≠ s.system.active ∧
    ∃ supervisor, s.system.slot = some supervisor ∧ supervisor.state.history ≠ []

end Session

/-! ### The supervisors of the registry -/

/-- A supervisor of one job: its history is whole and numbered from 1. -/
structure Supervisor.Sound (supervisor : Supervisor) : Prop where
  jobId : supervisor.state.jobId = some supervisor.worker.jobId
  running : supervisor.worker.place.isExited = false → supervisor.state.workerActive = true
  told : Told supervisor.worker.place (supervisor.state.history.map JobEvent.kind)
  ids : supervisor.state.history.map JobEvent.id =
    List.range' 1 supervisor.state.history.length
  next : supervisor.state.nextEventId = supervisor.state.history.length

theorem told_length {place : WorkerAt} {told : List JobEventKind} (h : Told place told) :
    told.length ≤ 7 := by
  have hprefix : ∀ {before : List Phase}, before <+: phases → before.length ≤ 6 :=
    fun hbefore => hbefore.length_le
  have hsplit : ∀ {before rest : List Phase}, phases = before ++ rest → before.length ≤ 6 :=
    fun heq => hprefix ⟨_, heq.symm⟩
  cases place with
  | spawned => simp [show told = [] from h]
  | before rest =>
    obtain ⟨before, hbefore, rfl⟩ := h
    have hle := hsplit hbefore
    rw [List.length_map]
    omega
  | entering phase rest =>
    obtain ⟨before, hbefore, rfl⟩ := h
    have hle := hsplit hbefore
    rw [List.length_map]
    omega
  | executing phase rest =>
    obtain ⟨before, hbefore, rfl⟩ := h
    have hle := hsplit hbefore
    simp only [List.length_map, List.length_append, List.length_singleton]
    omega
  | returned phase rest result =>
    obtain ⟨before, hbefore, rfl⟩ := h
    have hle := hsplit hbefore
    simp only [List.length_map, List.length_append, List.length_singleton]
    omega
  | finishing event =>
    obtain ⟨-, -, before, hbefore, rfl⟩ := h
    have hle := hprefix hbefore
    rw [List.length_map]
    omega
  | exited =>
    obtain ⟨before, event, hbefore, -, rfl⟩ := h
    have hle := hprefix hbefore
    simp only [List.length_map, List.length_append, List.length_singleton]
    omega

/-- A terminal event is the last one a worker tells. -/
theorem told_terminal_last {place : WorkerAt} {told : List JobEventKind} (h : Told place told) :
    ∃ (before : List Phase) (last : List JobEventKind),
      told = before.map JobEventKind.phase ++ last ∧ last.length ≤ 1 := by
  cases place with
  | spawned => exact ⟨[], [], by simp [show told = [] from h], by simp⟩
  | before rest =>
    obtain ⟨before, -, rfl⟩ := h
    exact ⟨before, [], by simp, by simp⟩
  | entering phase rest =>
    obtain ⟨before, -, rfl⟩ := h
    exact ⟨before, [], by simp, by simp⟩
  | executing phase rest =>
    obtain ⟨before, -, rfl⟩ := h
    exact ⟨before ++ [phase], [], by simp, by simp⟩
  | returned phase rest result =>
    obtain ⟨before, -, rfl⟩ := h
    exact ⟨before ++ [phase], [], by simp, by simp⟩
  | finishing event =>
    obtain ⟨-, -, before, -, rfl⟩ := h
    exact ⟨before, [], by simp, by simp⟩
  | exited =>
    obtain ⟨before, event, -, -, rfl⟩ := h
    exact ⟨before, [event], rfl, by simp⟩

theorem Supervisor.Sound.length_le {supervisor : Supervisor} (h : supervisor.Sound) :
    supervisor.state.history.length ≤ 7 := by
  simpa using told_length h.told

theorem pushEvent_of_short {history : List JobEvent} (h : history.length < maxEventHistory) (id : ℕ)
    (kind : JobEventKind) : pushEvent history id kind = history ++ [⟨id, kind⟩] := by
  unfold pushEvent List.rtake
  rw [List.length_append, List.length_singleton, Nat.sub_eq_zero_of_le h, List.drop_zero]

theorem satAddU64_one_of_le {n : ℕ} (h : n ≤ 7) : satAddU64 n 1 = n + 1 := by
  unfold satAddU64
  omega

/-- A worker that takes a step keeps its supervisor sound, and its history only grows. -/
theorem Supervisor.Sound.work {supervisor : Supervisor} (h : supervisor.Sound) (flags : List Bool)
    (answer : Answer) :
    let stepped := supervisor.worker.step flags answer supervisor.state
    Supervisor.Sound { supervisor with worker := stepped.1, state := stepped.2 } ∧
      supervisor.state.history <+: stepped.2.history := by
  obtain ⟨state, worker, flag⟩ := supervisor
  dsimp only
  cases hlive : worker.place.isExited with
  | true =>
    have hstay : worker.step flags answer state = (worker, state) := by
      obtain ⟨jobId, token, place⟩ := worker
      cases place <;> first | rfl | cases hlive
    rw [hstay]
    exact ⟨h, List.prefix_rfl⟩
  | false =>
    have hshort := h.length_le
    obtain ⟨hjobId, hrunning, htold, hids, hnext⟩ := h
    dsimp only at hshort hjobId hrunning htold hids hnext
    have hstep := @Worker.step_of_running flags answer worker state
      ⟨hjobId, hrunning hlive⟩ hlive
    have hid : satAddU64 state.nextEventId 1 = state.history.length + 1 := by
      rw [hnext, satAddU64_one_of_le hshort]
    have hroom : state.history.length < maxEventHistory := by
      unfold maxEventHistory
      omega
    have hhistory : (worker.step flags answer state).2.history = state.history ++
        ((worker.appends flags answer state).map
          fun kind => (⟨state.history.length + 1, kind⟩ : JobEvent)).toList := by
      rw [hstep.history, hid]
      cases worker.appends flags answer state with
      | none => simp
      | some kind => simp [pushEvent_of_short hroom]
    refine ⟨⟨?_, ?_, ?_, ?_, ?_⟩, by rw [hhistory]; exact List.prefix_append _ _⟩
    · rw [hstep.stateJobId, hstep.jobId]
      exact hjobId
    · intro hlive'
      rw [hstep.active, hlive']
      rfl
    · have hkinds := hstep.told _ htold
      rw [hhistory, List.map_append]
      cases happends : worker.appends flags answer state with
      | none => simpa [happends] using hkinds
      | some kind => simpa [happends] using hkinds
    · rw [hhistory, List.map_append, hids, List.length_append]
      cases worker.appends flags answer state with
      | none => simp
      | some kind => simp [List.range'_concat, Nat.add_comm]
    · rw [hstep.nextEventId, hhistory, hid]
      cases worker.appends flags answer state with
      | none => simpa using hnext
      | some kind => simp

namespace System

/-- Every supervisor of the registry is sound. -/
def Sound (s : System) : Prop :=
  ∀ (job : ℕ) (supervisor : Supervisor), s.supervisors[job]? = some supervisor → supervisor.Sound

/-- The registry later: the slot moves to later jobs only, and the histories grow. -/
structure Grows (s s' : System) : Prop where
  active : ∀ job, s.active = some job → ∃ job', s'.active = some job' ∧ job ≤ job'
  history : ∀ (job : ℕ) (supervisor : Supervisor), s.supervisors[job]? = some supervisor →
    ∃ supervisor', s'.supervisors[job]? = some supervisor' ∧
      supervisor.state.history <+: supervisor'.state.history

variable {s : System}

theorem Grows.withFlags (flags : List Bool) : s.Grows { s with flags } :=
  ⟨fun job hjob => ⟨job, hjob, le_rfl⟩, fun _ supervisor h => ⟨supervisor, h, List.prefix_rfl⟩⟩

theorem Grows.rfl : s.Grows s := Grows.withFlags s.flags

/-- One supervisor is replaced by one with a longer history. -/
theorem Sound.set (h : s.Sound) {index : ℕ} {supervisor supervisor' : Supervisor}
    {flags : List Bool} (hindex : s.supervisors[index]? = some supervisor)
    (hsound : supervisor'.Sound) (hgrows : supervisor.state.history <+: supervisor'.state.history) :
    Sound { s with flags, supervisors := s.supervisors.set index supervisor' } ∧
      s.Grows { s with flags, supervisors := s.supervisors.set index supervisor' } := by
  obtain ⟨hlt, -⟩ := List.getElem?_eq_some_iff.1 hindex
  refine ⟨fun job other hother => ?_, fun job hjob => ⟨job, hjob, le_rfl⟩, fun job other hother => ?_⟩
  · by_cases hjob : index = job
    · subst hjob
      rw [List.getElem?_set_self hlt] at hother
      cases hother
      exact hsound
    · rw [List.getElem?_set_ne hjob] at hother
      exact h job other hother
  · by_cases hjob : index = job
    · subst hjob
      rw [hindex] at hother
      cases hother
      exact ⟨supervisor', List.getElem?_set_self hlt, hgrows⟩
    · exact ⟨other, by rw [List.getElem?_set_ne hjob]; exact hother, List.prefix_rfl⟩

theorem Sound.start (h : s.Sound) (hlatest : s.Latest) (executor recorded spawned : Except String Unit) :
    (s.start executor recorded spawned).2.Sound ∧
      s.Grows (s.start executor recorded spawned).2 := by
  unfold System.start
  split_ifs with hrunning
  · exact ⟨h, Grows.rfl⟩
  · cases executor with
    | error error => exact ⟨h, Grows.rfl⟩
    | ok _ =>
      cases recorded with
      | error error => exact ⟨h, Grows.withFlags _⟩
      | ok _ =>
        cases spawned with
        | error error => exact ⟨h, Grows.withFlags _⟩
        | ok _ =>
          refine ⟨fun job other hother => ?_, fun job hjob =>
            ⟨s.supervisors.length, Eq.refl _, (hlatest.lt_length job hjob).le⟩, fun job other hother =>
            ⟨other, ?_, List.prefix_rfl⟩⟩
          · change (s.supervisors ++ [_])[job]? = some other at hother
            rcases Nat.lt_or_ge job s.supervisors.length with hlt | hge
            · rw [List.getElem?_append_left hlt] at hother
              exact h job other hother
            · rw [List.getElem?_append_right hge] at hother
              obtain ⟨hlast, hnew⟩ := List.getElem?_eq_some_iff.1 hother
              rw [List.getElem_singleton] at hnew
              rw [← hnew]
              exact ⟨Eq.refl _, fun _ => Eq.refl _, Eq.refl _, Eq.refl _, Eq.refl _⟩
          · change (s.supervisors ++ [_])[job]? = some other
            obtain ⟨hlt, -⟩ := List.getElem?_eq_some_iff.1 hother
            rw [List.getElem?_append_left hlt]
            exact hother

theorem Sound.cancel (h : s.Sound) (jobId : ℕ) :
    (s.cancel jobId).2.Sound ∧ s.Grows (s.cancel jobId).2 := by
  unfold System.cancel
  split
  · rename_i index supervisor hactive hslot
    have hindex : s.supervisors[index]? = some supervisor := by
      rw [slot, hactive] at hslot
      exact hslot
    have hsound := h index supervisor hindex
    split_ifs with hother
    · exact ⟨h, Grows.rfl⟩
    · unfold requestCancel
      split_ifs with hbusy
      · exact h.set hindex ⟨hsound.jobId, hsound.running, hsound.told, hsound.ids, hsound.next⟩
          List.prefix_rfl
      · exact ⟨h, Grows.rfl⟩
  · exact ⟨h, Grows.rfl⟩

/-- Every event keeps the supervisors sound. -/
theorem Sound.step (h : s.Sound) (hlatest : s.Latest) (event : Event) :
    (s.step event).2.Sound ∧ s.Grows (s.step event).2 := by
  cases event with
  | start executor recorded spawned => exact h.start hlatest executor recorded spawned
  | cancel jobId => exact h.cancel jobId
  | work index answer =>
    change (s.work index answer).Sound ∧ s.Grows (s.work index answer)
    unfold System.work
    split
    · exact ⟨h, Grows.rfl⟩
    · rename_i supervisor hindex
      obtain ⟨hsound, hgrows⟩ := (h index supervisor hindex).work s.flags answer
      exact h.set hindex hsound hgrows

end System

/-! ### What a turn sends -/

/-- In a history numbered from `first`, the events behind a number are what is left after it. -/
theorem filter_id_eq_drop {history : List JobEvent} {first : ℕ} (last : ℕ)
    (hids : history.map JobEvent.id = List.range' first history.length) :
    (history.filter fun event => decide (last < event.id)) = history.drop (last + 1 - first) := by
  induction history generalizing first with
  | nil => simp
  | cons event history ih =>
    rw [List.map_cons, List.length_cons, List.range'_succ, List.cons.injEq] at hids
    obtain ⟨hid, hrest⟩ := hids
    have htail := ih hrest
    rw [List.filter_cons, htail]
    by_cases hlast : last < event.id
    · have hzero : last + 1 - first = 0 := by omega
      have hzero' : last + 1 - (first + 1) = 0 := by omega
      simp [hlast, hzero, hzero']
    · obtain ⟨n, hn⟩ : ∃ n, last + 1 - first = n + 1 := ⟨last - first, by omega⟩
      have hn' : last + 1 - (first + 1) = n := by omega
      simp [hlast, hn, hn']

/-- Phase events with at most one event behind them are all sent. -/
theorem upToTerminal_eq_self {events : List JobEvent} {before : List Phase}
    {last : List JobEventKind}
    (hkinds : events.map JobEvent.kind = before.map JobEventKind.phase ++ last)
    (hlast : last.length ≤ 1) : upToTerminal events = events := by
  induction events generalizing before with
  | nil => rfl
  | cons event events ih =>
    rw [upToTerminal]
    cases before with
    | nil =>
      have hone := congrArg List.length hkinds
      simp only [List.map_cons, List.length_cons, List.length_map, List.map_nil,
        List.nil_append] at hone
      have hnil : events = [] := List.eq_nil_of_length_eq_zero (by omega)
      rw [hnil]
      split <;> rfl
    | cons phase before =>
      rw [List.map_cons, List.map_cons, List.cons_append, List.cons.injEq] at hkinds
      obtain ⟨hphase, hrest⟩ := hkinds
      rw [hphase, if_neg (by simp [JobEventKind.isTerminal]), ih hrest]

theorem Supervisor.Sound.upToTerminal_drop {supervisor : Supervisor} (h : supervisor.Sound)
    (last : ℕ) : upToTerminal (supervisor.state.history.drop last) =
      supervisor.state.history.drop last := by
  obtain ⟨before, rest, hkinds, hrest⟩ := told_terminal_last h.told
  refine @upToTerminal_eq_self _ (before.drop last)
    (rest.drop (last - (before.map JobEventKind.phase).length)) ?_ ?_
  · rw [List.map_drop, hkinds, List.drop_append, List.map_drop]
  · rw [List.length_drop]
    omega

/-- A turn sends what is left of the history. -/
theorem System.Sound.streamTurn_eq {s : System} (h : s.Sound) {job last : ℕ}
    {supervisor : Supervisor} (hactive : s.active = some job)
    (hjob : s.supervisors[job]? = some supervisor) (hlast : last ≤ 7) :
    s.streamTurn last = supervisor.state.history.drop last := by
  have hsound := h job supervisor hjob
  have hslot : s.slot = some supervisor := by
    rw [slot, hactive]
    exact hjob
  have hfilter := filter_id_eq_drop last hsound.ids
  rw [Nat.add_sub_cancel] at hfilter
  unfold streamTurn System.replay
  rw [satAddU64_one_of_le hlast, hslot]
  change upToTerminal (supervisor.state.history.filter _) = _
  rw [Nat.add_sub_cancel, hfilter]
  exact hsound.upToTerminal_drop last

/-- No history has lost its first event, so that no replay asks for a reset. -/
theorem Supervisor.Sound.resetRequired_eq {supervisor : Supervisor} (h : supervisor.Sound)
    (last : ℕ) : (replayLocked supervisor.state last).resetRequired = false := by
  have hids := h.ids
  unfold replayLocked
  cases hhistory : supervisor.state.history with
  | nil => rfl
  | cons event events =>
    rw [hhistory, List.map_cons, List.length_cons, List.range'_succ, List.cons.injEq] at hids
    have hpos : 1 ≤ satAddU64 last 1 := by
      unfold satAddU64
      omega
    simp only [List.head?_cons, decide_eq_false_iff_not]
    omega

/-- The number of the last of some events that a turn sent. -/
theorem Supervisor.Sound.id_getLast {supervisor : Supervisor} (h : supervisor.Sound)
    {last arrived : ℕ} {event : JobEvent}
    (hevent : ((supervisor.state.history.drop last).take arrived).getLast? = some event) :
    event.id = last + ((supervisor.state.history.drop last).take arrived).length := by
  have htake : ∀ first n : ℕ, (List.range' first n).take arrived =
      List.range' first (min arrived n) := fun first n => by
    rcases le_total arrived n with hle | hle
    · rw [List.take_range'_of_length_ge hle, min_eq_left hle]
    · rw [List.take_range'_of_length_le hle, min_eq_right hle]
  have hid := congrArg (Option.map JobEvent.id) hevent
  rw [← List.getLast?_map, List.map_take, List.map_drop, h.ids, List.drop_range', htake,
    List.getLast?_range'] at hid
  rw [List.length_take, List.length_drop]
  split_ifs at hid with hzero
  · cases hid
  · rw [Option.map_some, Option.some.injEq] at hid
    omega

namespace Session

/-! ### The client -/

/-- What holds of a client whatever it got. -/
structure Inv (s : Session) : Prop where
  sound : s.system.Sound
  latest : s.system.Latest
  source : ∀ job, s.client.source = some job → (∃ active, s.system.active = some active ∧ job ≤ active) ∧
    ∃ supervisor, s.system.supervisors[job]? = some supervisor ∧
      s.client.last ≤ supervisor.state.history.length
  fresh : s.client.source = none → s.client.last = 0
  received : ∀ entry ∈ s.client.received, ∃ job, s.client.source = some job ∧ entry.1 ≤ job

/-- The client has got every event of its job up to its number. -/
def CaughtUp (s : Session) : Prop :=
  ∀ (job : ℕ) (supervisor : Supervisor), s.client.source = some job →
    s.system.supervisors[job]? = some supervisor →
    ∀ event ∈ supervisor.state.history.take s.client.last, (job, event) ∈ s.client.received

variable {s : Session}

theorem inv_initial : Inv {} where
  sound _ _ h := by cases h
  latest := System.latest_initial
  source _ h := by cases h
  fresh _ := rfl
  received _ h := by cases h

theorem caughtUp_initial : CaughtUp {} := fun _ _ h => by cases h

theorem Inv.last_le (h : Inv s) : s.client.last ≤ 7 := by
  cases hsource : s.client.source with
  | none =>
    rw [h.fresh hsource]
    omega
  | some job =>
    obtain ⟨-, supervisor, hjob, hle⟩ := h.source job hsource
    exact hle.trans (h.sound job supervisor hjob).length_le

/-- The supervisor of the job in the slot. -/
theorem Inv.active_supervisor (h : Inv s) {job : ℕ} (hactive : s.system.active = some job) :
    ∃ supervisor, s.system.supervisors[job]? = some supervisor :=
  ⟨_, List.getElem?_eq_getElem (h.latest.lt_length job hactive)⟩

theorem Inv.registry (h : Inv s) (event : Event) : Inv (s.step (.registry event)) := by
  obtain ⟨hsound, hgrows⟩ := h.sound.step h.latest event
  refine ⟨hsound, h.latest.step event, fun job hsource => ?_, h.fresh, h.received⟩
  obtain ⟨⟨active, hactive, hle⟩, supervisor, hjob, hlast⟩ := h.source job hsource
  obtain ⟨active', hactive', hle'⟩ := hgrows.active active hactive
  obtain ⟨supervisor', hjob', hprefix⟩ := hgrows.history job supervisor hjob
  exact ⟨⟨active', hactive', hle.trans hle'⟩, supervisor', hjob', hlast.trans hprefix.length_le⟩

theorem CaughtUp.registry (h : CaughtUp s) (hinv : Inv s) (event : Event) :
    CaughtUp (s.step (.registry event)) := by
  obtain ⟨-, hgrows⟩ := hinv.sound.step hinv.latest event
  intro job supervisor' hsource hjob' entry hentry
  change entry ∈ supervisor'.state.history.take s.client.last at hentry
  obtain ⟨-, supervisor, hjob, hlast⟩ := hinv.source job hsource
  obtain ⟨grown, hgrown, hprefix⟩ := hgrows.history job supervisor hjob
  rw [show grown = supervisor' from Option.some.inj (hgrown.symm.trans hjob')] at hprefix
  -- the number is one of the old history, of which nothing is lost
  obtain ⟨later, hlater⟩ := hprefix
  refine h job supervisor hsource hjob entry ?_
  rw [← hlater, List.take_append_of_le_length hlast] at hentry
  exact hentry

/-- A turn: nothing arrives, or the client has got the next events of the job in the slot. -/
theorem turn_cases (h : Inv s) (arrived : ℕ) :
    s.step (.turn arrived) = s ∨
      ∃ (job : ℕ) (supervisor : Supervisor) (count : ℕ), s.system.active = some job ∧
        s.system.supervisors[job]? = some supervisor ∧ 0 < count ∧
        s.client.last + count ≤ supervisor.state.history.length ∧
        s.step (.turn arrived) = { s with
          client :=
            { last := s.client.last + count, source := some job
              received := s.client.received ++
                ((supervisor.state.history.drop s.client.last).take count).map
                  fun event => (job, event) } } := by
  unfold Session.step
  dsimp only
  cases hactive : s.system.active with
  | none => exact .inl rfl
  | some job =>
    obtain ⟨supervisor, hjob⟩ := h.active_supervisor hactive
    dsimp only
    rw [h.sound.streamTurn_eq hactive hjob h.last_le]
    unfold Client.receive
    cases hevent : ((supervisor.state.history.drop s.client.last).take arrived).getLast? with
    | none => exact .inl rfl
    | some event =>
      have hid := (h.sound job supervisor hjob).id_getLast hevent
      have hcount : 0 < ((supervisor.state.history.drop s.client.last).take arrived).length := by
        rw [List.length_pos_iff]
        rintro hnil
        rw [hnil] at hevent
        cases hevent
      have hmin : (supervisor.state.history.drop s.client.last).take
          (min arrived (supervisor.state.history.length - s.client.last)) =
          (supervisor.state.history.drop s.client.last).take arrived := by
        rw [← List.length_drop, ← List.take_eq_take_min]
      rw [List.length_take, List.length_drop] at hid hcount
      refine .inr ⟨job, supervisor, _, rfl, hjob, hcount, by omega, ?_⟩
      rw [hmin]
      dsimp only
      rw [hid]

theorem Inv.turn (h : Inv s) (arrived : ℕ) : Inv (s.step (.turn arrived)) := by
  rcases turn_cases h arrived with hstep | ⟨job, supervisor, count, hactive, hjob, hpos, hle, hstep⟩
  · rw [hstep]
    exact h
  · rw [hstep]
    refine ⟨h.sound, h.latest, fun source hsource => ?_, fun hnone => (by cases hnone), fun entry hentry =>
      ⟨job, rfl, ?_⟩⟩
    · cases hsource
      exact ⟨⟨job, hactive, le_rfl⟩, supervisor, hjob, hle⟩
    · rcases List.mem_append.1 hentry with hold | hnew
      · obtain ⟨source, hsource, hentryLe⟩ := h.received entry hold
        obtain ⟨⟨active, hactive', hsourceLe⟩, -⟩ := h.source source hsource
        rw [hactive, Option.some.injEq] at hactive'
        omega
      · obtain ⟨event, -, rfl⟩ := List.mem_map.1 hnew
        exact le_rfl

/-- A turn that is not stale brings the client up to its new number. -/
theorem CaughtUp.turn (h : CaughtUp s) (hinv : Inv s) (hfresh : ¬ s.Stale) (arrived : ℕ) :
    CaughtUp (s.step (.turn arrived)) := by
  rcases turn_cases hinv arrived with
    hstep | ⟨job, supervisor, count, hactive, hjob, hpos, hle, hstep⟩
  · rw [hstep]
    exact h
  · rw [hstep]
    intro source supervisor' hsource hjob' event hevent
    cases hsource
    rw [show supervisor' = supervisor from Option.some.inj (hjob'.symm.trans hjob)] at hevent
    rw [List.mem_append, List.mem_map]
    rw [List.take_add, List.mem_append] at hevent
    rcases hevent with hold | hnew
    · -- an event below the old number: of this job, as the turn is not stale
      left
      have hsource : s.client.source = some job := by
        by_contra hother
        refine hfresh ⟨?_, by rwa [hactive], supervisor, ?_, ?_⟩
        · intro hzero
          rw [hzero] at hold
          cases hold
        · rw [System.slot, hactive]
          exact hjob
        · intro hnil
          rw [hnil] at hle
          simp only [List.length_nil] at hle
          omega
      exact h job supervisor hsource hjob event hold
    · exact .inr ⟨event, hnew, rfl⟩

/-- A turn that is not stale sends all that the client has not got. -/
theorem CaughtUp.complete (h : CaughtUp s) (hinv : Inv s) (hfresh : ¬ s.Stale) : s.Complete := by
  intro job supervisor hactive hjob
  right
  intro event hevent
  rw [hinv.sound.streamTurn_eq hactive hjob hinv.last_le]
  rw [← List.take_append_drop s.client.last supervisor.state.history, List.mem_append] at hevent
  rcases hevent with hold | hnew
  · left
    by_cases hsource : s.client.source = some job
    · exact h job supervisor hsource hjob event hold
    · exfalso
      refine hfresh ⟨?_, by rwa [hactive], supervisor, ?_, ?_⟩
      · intro hzero
        rw [hzero] at hold
        cases hold
      · rw [System.slot, hactive]
        exact hjob
      · intro hnil
        rw [hnil, List.take_nil] at hold
        cases hold
  · exact .inr hnew

/-- A stale turn skips the first event of the job in the slot. -/
theorem Stale.not_complete (h : s.Stale) (hinv : Inv s) : ¬ s.Complete := by
  obtain ⟨hlast, hsource, supervisor, hslot, hhistory⟩ := h
  intro hcomplete
  obtain ⟨job, hactive⟩ : ∃ job, s.system.active = some job := by
    cases hactive : s.system.active with
    | none =>
      rw [System.slot, hactive] at hslot
      cases hslot
    | some job => exact ⟨job, rfl⟩
  have hjob : s.system.supervisors[job]? = some supervisor := by
    rw [System.slot, hactive] at hslot
    exact hslot
  have hsound := hinv.sound job supervisor hjob
  obtain ⟨event, events, hevents⟩ := List.exists_cons_of_ne_nil hhistory
  rcases hcomplete job supervisor hactive hjob with hreset | hall
  · rw [hsound.resetRequired_eq] at hreset
    cases hreset
  · rcases hall event (by rw [hevents]; exact List.mem_cons_self) with hold | hnew
    · -- all that was received is of an earlier job
      obtain ⟨source, hsource', hle⟩ := hinv.received _ hold
      obtain ⟨⟨active, hactive', hle'⟩, -⟩ := hinv.source source hsource'
      rw [hactive, Option.some.injEq] at hactive'
      have hsame : source = job := by omega
      rw [hsource', hactive, hsame] at hsource
      exact hsource rfl
    · rw [hinv.sound.streamTurn_eq hactive hjob hinv.last_le] at hnew
      have hids := List.mem_map_of_mem (f := JobEvent.id) hnew
      have hfirst := hsound.ids
      rw [hevents, List.map_cons, List.length_cons, List.range'_succ, List.cons.injEq] at hfirst
      rw [List.map_drop, hsound.ids, List.drop_range', List.mem_range'_1] at hids
      omega

theorem Inv.step (h : Inv s) (step : SessionStep) : Inv (s.step step) := by
  cases step with
  | registry event => exact h.registry event
  | turn arrived => exact h.turn arrived

theorem Inv.run (h : Inv s) (steps : List SessionStep) : Inv (s.run steps) := by
  induction steps generalizing s with
  | nil => exact h
  | cons step steps ih => exact ih (h.step step)

/-- With no stale turn the client is always caught up. -/
theorem CaughtUp.run (h : CaughtUp s) (hinv : Inv s) {steps : List SessionStep}
    (hfresh : ∀ before arrived after, steps = before ++ .turn arrived :: after →
      ¬ (s.run before).Stale) : CaughtUp (s.run steps) := by
  induction steps generalizing s with
  | nil => exact h
  | cons step steps ih =>
    refine ih ?_ (hinv.step step) fun before arrived after hsteps =>
      hfresh (step :: before) arrived after (by rw [hsteps, List.cons_append])
    cases step with
    | registry event => exact h.registry hinv event
    | turn arrived => exact h.turn hinv (hfresh [] arrived steps rfl) arrived

/-- Every turn of a stream sends all events that the client has not got exactly when no turn is
stale. The histories themselves are whole. -/
theorem streams_complete_iff (steps : List SessionStep) :
    (∀ supervisor ∈ (run {} steps).system.supervisors,
      supervisor.state.history.map JobEvent.id = List.range' 1 supervisor.state.nextEventId) ∧
    ((∀ before arrived after, steps = before ++ .turn arrived :: after →
        (run {} before).Complete) ↔
      ∀ before arrived after, steps = before ++ .turn arrived :: after →
        ¬ (run {} before).Stale) := by
  refine ⟨fun supervisor hmem => ?_, fun hcomplete before arrived after hsteps hstale => ?_,
    fun hfresh before arrived after hsteps => ?_⟩
  · obtain ⟨job, hjob⟩ := List.getElem?_of_mem hmem
    have hsound := (inv_initial.run steps).sound job supervisor hjob
    rw [hsound.next, hsound.ids]
  · exact hstale.not_complete (inv_initial.run before) (hcomplete before arrived after hsteps)
  · have hcaught : CaughtUp (run {} before) := by
      refine caughtUp_initial.run inv_initial fun before' arrived' after' hbefore => ?_
      exact hfresh before' arrived' (after' ++ .turn arrived :: after)
        (by rw [hsteps, hbefore, List.append_assoc, List.cons_append])
    exact hcaught.complete (inv_initial.run before) (hfresh before arrived after hsteps)

/-- The first job fails in its first phase and the client gets both events of it. -/
def afterFirstJob : List SessionStep :=
  (startOk :: firstFails).map .registry ++ [.turn 2]

/-- Then a second job fails in its first phase. -/
def afterSecondJob : List SessionStep :=
  afterFirstJob ++
    (startOk :: List.replicate 6 (.work 1 ⟨.error "no disk", none⟩)).map SessionStep.registry

/-- The client now gets none of the events of the second job, and no reset. -/
theorem second_job_skipped :
    ¬ (run {} afterSecondJob).Complete := by
  intro hcomplete
  have hclient : (run {} afterSecondJob).client.last = 2 ∧
      (run {} afterSecondJob).client.received.map Prod.fst = [0, 0] ∧
      (run {} afterSecondJob).system.streamTurn 2 = [] ∧
      (run {} afterSecondJob).system.active = some 1 := by
    decide
  obtain ⟨hlast, hreceived, hturn, hactive⟩ := hclient
  have hjob : ∃ supervisor, (run {} afterSecondJob).system.supervisors[1]? = some supervisor ∧
      supervisor.state.history = [⟨1, .phase .prepare⟩,
        ⟨2, .error "no disk" (some .prepare) false⟩] :=
    ⟨_, rfl, by decide⟩
  obtain ⟨supervisor, hjob, hhistory⟩ := hjob
  rw [Complete, hlast, hturn] at hcomplete
  rcases hcomplete 1 supervisor hactive hjob with hreset | hall
  · rw [replayLocked, hhistory] at hreset
    simp [satAddU64] at hreset
  · rcases hall ⟨1, .phase .prepare⟩ (by simp [hhistory]) with hold | hnew
    · have hmem := List.mem_map_of_mem (f := Prod.fst) hold
      rw [hreceived] at hmem
      simp at hmem
    · cases hnew

end Session

end Kyth.Job
