import Mathlib.Tactic

/-!
# The scheduler daemon (`system/sched_daemon.rs`)

A poll finds out whether the gaming or the desktop profile is effective and asks the caller to switch the
scheduler when the profile has changed. The caller reports a switch that worked (`scheduler_applied`);
while the wanted scheduler is not confirmed the request is repeated, with a pause between two attempts.

* `pollStep` is one poll, `Step` one step of the daemon and its caller, `Run` a run of them;
* `Regular` collects what holds of the polls of a run; `run_regular` says that every run from the initial
  state is regular.
-/

namespace Kyth.Sched

/-- `SCX_RETRY_POLLS`. -/
def scxRetryPolls : ℕ := 6

/-- `SchedConfig`: what a poll reads of it. -/
structure SchedConfig where
  desktopScheduler : String := "default"
  gamingScheduler : String := "scx_rusty"
  integratePerfMode : Bool := true
  deriving DecidableEq

/-- `SchedEffect`. -/
inductive SchedEffect
  | setScheduler (name : String)
  | enterGamingPerf
  | restorePerf
  deriving DecidableEq

/-- `SchedState`; its default is `SchedState::new`. -/
structure SchedState where
  profile : String := "desktop"
  gamingPrev : Bool := false
  manualOverride : Option String := none
  appliedScheduler : Option String := none
  pollsSinceAttempt : ℕ := 0
  deriving DecidableEq

/-- `SchedState::scheduler_applied`. -/
def SchedState.schedulerApplied (state : SchedState) (name : String) : SchedState :=
  { state with appliedScheduler := some name }

/-- The name of the effective profile: the manual override, or what was detected. -/
def SchedState.effective (state : SchedState) (gamingDetected : Bool) : String :=
  state.manualOverride.getD (if gamingDetected then "gaming" else "desktop")

/-- The scheduler of a profile. -/
def SchedConfig.scheduler (config : SchedConfig) (gaming : Bool) : String :=
  if gaming then config.gamingScheduler else config.desktopScheduler

/-- The name of a profile in the state. -/
def profileName (gaming : Bool) : String := if gaming then "gaming" else "desktop"

/-- The effect on the performance mode of a change to a profile. -/
def perfEffect (gaming : Bool) : SchedEffect := if gaming then .enterGamingPerf else .restorePerf

/-- `u32::saturating_add(1)`. -/
def satSuccU32 (n : ℕ) : ℕ := min (2 ^ 32 - 1) (n + 1)

/-- `poll_step`: the effects that the launcher must apply, and the state. -/
def pollStep (state : SchedState) (config : SchedConfig) (gamingDetected : Bool) :
    List SchedEffect × SchedState :=
  let gamingNow := state.effective gamingDetected == "gaming"
  let wanted := config.scheduler gamingNow
  let transitioned := gamingNow != state.gamingPrev
  let unconfirmed := state.appliedScheduler != some wanted
  -- Retries are paced, since a host without sched_ext can never confirm.
  let retryDue := unconfirmed && decide (scxRetryPolls ≤ state.pollsSinceAttempt)
  if !transitioned && !retryDue then
    ([], if unconfirmed then
        { state with pollsSinceAttempt := satSuccU32 state.pollsSinceAttempt } else state)
  else
    (.setScheduler wanted ::
        -- The performance mode follows the transition only, never a retry.
        (if transitioned && config.integratePerfMode then [perfEffect gamingNow] else []),
      { state with
        pollsSinceAttempt := 0
        gamingPrev := gamingNow
        profile := profileName gamingNow })

/-! ### Polls -/

/-- What a poll found and did. -/
structure Poll where
  effective : String
  before : SchedState
  effects : List SchedEffect
  after : SchedState

namespace Poll

/-- The effective profile is the gaming profile. -/
def gaming (p : Poll) : Bool := p.effective == "gaming"

/-- The schedulers that the poll asks for. -/
def schedulers (p : Poll) : List String :=
  p.effects.filterMap fun
    | .setScheduler name => some name
    | _ => none

/-- The effects on the performance mode. -/
def perf (p : Poll) : List SchedEffect :=
  p.effects.filter fun
    | .setScheduler _ => false
    | _ => true

/-- The poll asks for nothing. -/
def silent (p : Poll) : Bool := p.effects.isEmpty

/-- The caller had confirmed the scheduler that the poll wants. -/
def Confirmed (config : SchedConfig) (p : Poll) : Prop :=
  p.before.appliedScheduler = some (config.scheduler p.gaming)

end Poll

/-- The poll of a state. -/
def pollOf (config : SchedConfig) (state : SchedState) (gamingDetected : Bool) : Poll where
  effective := state.effective gamingDetected
  before := state
  effects := (pollStep state config gamingDetected).1
  after := (pollStep state config gamingDetected).2

/-- The state with the effects of the last poll. -/
structure Daemon where
  state : SchedState := {}
  last : List SchedEffect := []

/-- A step of the daemon and its caller: the override is changed, a scheduler that the last poll asked
for is reported as set, or the next poll is made. -/
inductive Step (config : SchedConfig) : Daemon → Option Poll → Daemon → Prop
  | override (d : Daemon) (value : Option String) :
      Step config d none { d with state := { d.state with manualOverride := value } }
  | applied (d : Daemon) (name : String) (h : .setScheduler name ∈ d.last) :
      Step config d none { d with state := d.state.schedulerApplied name }
  | poll (d : Daemon) (gamingDetected : Bool) :
      Step config d (some (pollOf config d.state gamingDetected))
        ⟨(pollOf config d.state gamingDetected).after, (pollOf config d.state gamingDetected).effects⟩

/-- A run with its polls. -/
inductive Run (config : SchedConfig) : Daemon → List Poll → Daemon → Prop
  | nil (d : Daemon) : Run config d [] d
  | between {d d' d'' : Daemon} {polls : List Poll} (h : Step config d none d')
      (hrun : Run config d' polls d'') : Run config d polls d''
  | poll {d d' d'' : Daemon} {p : Poll} {polls : List Poll} (h : Step config d (some p) d')
      (hrun : Run config d' polls d'') : Run config d (p :: polls) d''

variable {config : SchedConfig} {d d' d'' : Daemon} {p q : Poll} {polls polls' : List Poll}
  {state : SchedState} {detected : Bool}

theorem Run.append_inv (h : Run config d (polls ++ polls') d'') :
    ∃ d', Run config d polls d' ∧ Run config d' polls' d'' := by
  generalize hall : polls ++ polls' = all at h
  induction h generalizing polls with
  | nil d =>
    obtain ⟨rfl, rfl⟩ := List.append_eq_nil_iff.mp hall
    exact ⟨d, .nil d, .nil d⟩
  | between hstep _ ih =>
    obtain ⟨d', hfirst, hsecond⟩ := ih hall
    exact ⟨d', .between hstep hfirst, hsecond⟩
  | @poll d _ _ p rest hstep hrun ih =>
    cases polls with
    | nil =>
      obtain rfl : polls' = p :: rest := hall
      exact ⟨d, .nil d, .poll hstep hrun⟩
    | cons first polls =>
      obtain ⟨rfl, hrest⟩ := List.cons_eq_cons.mp hall
      obtain ⟨d', hfirst, hsecond⟩ := ih hrest
      exact ⟨d', .poll hstep hfirst, hsecond⟩

/-! ### One poll -/

/-- A poll that asks for nothing, and does not wait for anything. -/
structure IsQuiet (config : SchedConfig) (p : Poll) : Prop where
  same : p.gaming = p.before.gamingPrev
  confirmed : p.Confirmed config
  effects : p.effects = []
  after : p.after = p.before

/-- A poll that asks for nothing while the wanted scheduler is not confirmed. -/
structure IsWaiting (config : SchedConfig) (p : Poll) : Prop where
  same : p.gaming = p.before.gamingPrev
  unconfirmed : ¬ p.Confirmed config
  early : p.before.pollsSinceAttempt < scxRetryPolls
  effects : p.effects = []
  after : p.after =
    { p.before with pollsSinceAttempt := satSuccU32 p.before.pollsSinceAttempt }

/-- A poll that asks for the wanted scheduler. -/
structure IsAsking (config : SchedConfig) (p : Poll) : Prop where
  due : p.gaming = p.before.gamingPrev →
    ¬ p.Confirmed config ∧ scxRetryPolls ≤ p.before.pollsSinceAttempt
  effects : p.effects = .setScheduler (config.scheduler p.gaming) ::
    (if p.gaming ≠ p.before.gamingPrev ∧ config.integratePerfMode = true then
      [perfEffect p.gaming] else [])
  after : p.after =
    { p.before with
      pollsSinceAttempt := 0
      gamingPrev := p.gaming
      profile := profileName p.gaming }

theorem pollStep_of_confirmed
    (hsame : (state.effective detected == "gaming") = state.gamingPrev)
    (hconfirmed : state.appliedScheduler = some (config.scheduler state.gamingPrev)) :
    pollStep state config detected = ([], state) := by
  simp [pollStep, hsame, hconfirmed]

theorem pollStep_of_early (hsame : (state.effective detected == "gaming") = state.gamingPrev)
    (hunconfirmed : state.appliedScheduler ≠ some (config.scheduler state.gamingPrev))
    (hearly : state.pollsSinceAttempt < scxRetryPolls) :
    pollStep state config detected =
      ([], { state with pollsSinceAttempt := satSuccU32 state.pollsSinceAttempt }) := by
  simp [pollStep, hsame, hunconfirmed, hearly]

theorem pollStep_of_due (config : SchedConfig) (state : SchedState) (detected : Bool)
    (hdue : (state.effective detected == "gaming") = state.gamingPrev →
      state.appliedScheduler ≠ some (config.scheduler state.gamingPrev) ∧
        scxRetryPolls ≤ state.pollsSinceAttempt) :
    pollStep state config detected =
      (.setScheduler (config.scheduler (state.effective detected == "gaming")) ::
          (if (state.effective detected == "gaming") ≠ state.gamingPrev ∧
            config.integratePerfMode = true then
              [perfEffect (state.effective detected == "gaming")] else []),
        { state with
          pollsSinceAttempt := 0
          gamingPrev := state.effective detected == "gaming"
          profile := profileName (state.effective detected == "gaming") }) := by
  generalize hnow : (state.effective detected == "gaming") = now at hdue ⊢
  by_cases hsame : now = state.gamingPrev
  · obtain ⟨hunconfirmed, hlate⟩ := hdue hsame
    simp [pollStep, hnow, hsame, hunconfirmed, hlate]
  · simp [pollStep, hnow, hsame]

theorem confirmed_pollOf_iff
    (hsame : (state.effective detected == "gaming") = state.gamingPrev) :
    (pollOf config state detected).Confirmed config ↔
      state.appliedScheduler = some (config.scheduler state.gamingPrev) := by
  show state.appliedScheduler = some (config.scheduler (state.effective detected == "gaming")) ↔ _
  rw [hsame]

/-- What a poll can do. -/
theorem pollOf_cases (config : SchedConfig) (state : SchedState) (detected : Bool) :
    IsQuiet config (pollOf config state detected) ∨
      IsWaiting config (pollOf config state detected) ∨
      IsAsking config (pollOf config state detected) := by
  by_cases hsame : (state.effective detected == "gaming") = state.gamingPrev
  · by_cases hconfirmed : state.appliedScheduler = some (config.scheduler state.gamingPrev)
    · have hstep := pollStep_of_confirmed hsame hconfirmed
      exact Or.inl ⟨hsame, (confirmed_pollOf_iff hsame).mpr hconfirmed, congrArg Prod.fst hstep,
        congrArg Prod.snd hstep⟩
    · have hpoll := (confirmed_pollOf_iff hsame).not.mpr hconfirmed
      by_cases hearly : state.pollsSinceAttempt < scxRetryPolls
      · have hstep := pollStep_of_early hsame hconfirmed hearly
        exact Or.inr (Or.inl
          ⟨hsame, hpoll, hearly, congrArg Prod.fst hstep, congrArg Prod.snd hstep⟩)
      · have hlate : scxRetryPolls ≤ state.pollsSinceAttempt := by omega
        have hstep := pollStep_of_due config state detected fun _ => ⟨hconfirmed, hlate⟩
        exact Or.inr (Or.inr
          ⟨fun _ => ⟨hpoll, hlate⟩, congrArg Prod.fst hstep, congrArg Prod.snd hstep⟩)
  · have hstep := pollStep_of_due config state detected fun h => absurd h hsame
    exact Or.inr (Or.inr
      ⟨fun h => absurd h hsame, congrArg Prod.fst hstep, congrArg Prod.snd hstep⟩)

namespace Poll

/-- The poll asks for the scheduler of its profile. -/
def Asks (config : SchedConfig) (p : Poll) : Prop := p.schedulers = [config.scheduler p.gaming]

end Poll

theorem IsAsking.asks (h : IsAsking config p) : p.Asks config := by
  unfold Poll.Asks Poll.schedulers
  rw [h.effects]
  split_ifs
  · cases p.gaming <;> rfl
  · rfl

theorem IsAsking.perf (h : IsAsking config p) :
    p.perf = if p.gaming ≠ p.before.gamingPrev ∧ config.integratePerfMode = true then
      [perfEffect p.gaming] else [] := by
  unfold Poll.perf
  rw [h.effects]
  split_ifs
  · cases p.gaming <;> rfl
  · rfl

theorem IsAsking.ne_nil (h : IsAsking config p) : p.effects ≠ [] := by
  rw [h.effects]
  exact List.cons_ne_nil _ _

/-! ### The invariant of a run -/

/-- What holds between any two steps. -/
structure Settled (config : SchedConfig) (d : Daemon) : Prop where
  profile : d.state.profile = profileName d.state.gamingPrev
  counter : d.state.pollsSinceAttempt ≤ scxRetryPolls
  last : ∀ name, .setScheduler name ∈ d.last → name = config.scheduler d.state.gamingPrev

theorem settled_new (config : SchedConfig) : Settled config {} where
  profile := rfl
  counter := Nat.zero_le _
  last _ h := absurd h List.not_mem_nil

/-- The poll that a step makes, and the daemon after it. -/
theorem Step.poll_inv (h : Step config d (some p) d') :
    p.before = d.state ∧ d' = ⟨p.after, p.effects⟩ ∧
      (IsQuiet config p ∨ IsWaiting config p ∨ IsAsking config p) := by
  cases h with
  | poll detected => exact ⟨rfl, rfl, pollOf_cases config d.state detected⟩

/-- Between two polls only the override and a confirmation change. -/
theorem Step.between_inv (h : Step config d none d') (hd : Settled config d) :
    d'.last = d.last ∧ d'.state.profile = d.state.profile ∧
      d'.state.gamingPrev = d.state.gamingPrev ∧
      d'.state.pollsSinceAttempt = d.state.pollsSinceAttempt ∧
      (d'.state.appliedScheduler = d.state.appliedScheduler ∨
        d'.state.appliedScheduler = some (config.scheduler d.state.gamingPrev)) := by
  cases h with
  | override value => exact ⟨rfl, rfl, rfl, rfl, Or.inl rfl⟩
  | applied name hlast => exact ⟨rfl, rfl, rfl, rfl, Or.inr (congrArg some (hd.last name hlast))⟩

theorem Settled.step {made : Option Poll} (h : Settled config d) (hstep : Step config d made d') :
    Settled config d' := by
  cases made with
  | none =>
    obtain ⟨hlast, hprofile, hprev, hcounter, -⟩ := hstep.between_inv h
    exact ⟨by rw [hprofile, hprev, h.profile], hcounter ▸ h.counter,
      fun name hname => hprev ▸ h.last name (hlast ▸ hname)⟩
  | some p =>
    obtain ⟨hbefore, rfl, hquiet | hwaiting | hasking⟩ := hstep.poll_inv
    · refine ⟨?_, ?_, fun name hname => ?_⟩
      · show p.after.profile = profileName p.after.gamingPrev
        rw [hquiet.after, hbefore, h.profile]
      · show p.after.pollsSinceAttempt ≤ scxRetryPolls
        rw [hquiet.after, hbefore]
        exact h.counter
      · exact absurd (hquiet.effects ▸ hname) List.not_mem_nil
    · refine ⟨?_, ?_, fun name hname => ?_⟩
      · show p.after.profile = profileName p.after.gamingPrev
        rw [hwaiting.after, hbefore, h.profile]
      · show p.after.pollsSinceAttempt ≤ scxRetryPolls
        rw [hwaiting.after]
        exact (min_le_right _ _).trans hwaiting.early
      · exact absurd (hwaiting.effects ▸ hname) List.not_mem_nil
    · refine ⟨?_, ?_, fun name hname => ?_⟩
      · show p.after.profile = profileName p.after.gamingPrev
        rw [hasking.after]
      · show p.after.pollsSinceAttempt ≤ scxRetryPolls
        rw [hasking.after]
        exact Nat.zero_le _
      · show name = config.scheduler p.after.gamingPrev
        have hmem : name ∈ p.schedulers := List.mem_filterMap.mpr ⟨_, hname, rfl⟩
        rw [hasking.asks, List.mem_singleton] at hmem
        rw [hasking.after, hmem]

theorem Settled.run (h : Settled config d) (hrun : Run config d polls d') : Settled config d' := by
  induction hrun with
  | nil d => exact h
  | between hstep _ ih => exact ih (h.step hstep)
  | poll hstep _ ih => exact ih (h.step hstep)

theorem Run.cons_inv (h : Run config d (p :: polls) d'') :
    ∃ start after, Run config d [] start ∧ Step config start (some p) after ∧
      Run config after polls d'' := by
  generalize hall : p :: polls = all at h
  induction h with
  | nil d => exact absurd hall nofun
  | between hstep _ ih =>
    obtain ⟨start, after, hfirst, hpoll, hrest⟩ := ih hall
    exact ⟨start, after, .between hstep hfirst, hpoll, hrest⟩
  | @poll d _ _ _ _ hstep hrun ih =>
    obtain ⟨rfl, rfl⟩ := List.cons_eq_cons.mp hall
    exact ⟨d, _, .nil d, hstep, hrun⟩

/-- The state after a poll describes the profile that the poll found. -/
theorem Step.gamingPrev (h : Step config d (some p) d') : d'.state.gamingPrev = p.gaming := by
  obtain ⟨-, rfl, hquiet | hwaiting | hasking⟩ := h.poll_inv
  · show p.after.gamingPrev = p.gaming
    rw [hquiet.after, hquiet.same]
  · show p.after.gamingPrev = p.gaming
    rw [hwaiting.after, hwaiting.same]
  · show p.after.gamingPrev = p.gaming
    rw [hasking.after]

/-- The profile of the last poll; desktop before the first one. -/
def lastGaming (polls : List Poll) (start : Bool) : Bool := (polls.getLast?.map Poll.gaming).getD start

theorem Settled.gamingPrev_run (h : Settled config d) (hrun : Run config d polls d') :
    d'.state.gamingPrev = lastGaming polls d.state.gamingPrev := by
  induction hrun with
  | nil d => rfl
  | between hstep _ ih =>
    rw [ih (h.step hstep), (hstep.between_inv h).2.2.1]
  | @poll d d' _ p polls hstep _ ih =>
    rw [ih (h.step hstep), hstep.gamingPrev]
    unfold lastGaming
    rw [List.getLast?_cons]
    cases polls.getLast? <;> rfl

/-- The counter counts silent polls only. -/
theorem Settled.counter_run_le (h : Settled config d) (hrun : Run config d polls d') :
    d'.state.pollsSinceAttempt ≤ d.state.pollsSinceAttempt + polls.countP Poll.silent := by
  induction hrun with
  | nil d => exact Nat.le_add_right _ _
  | between hstep _ ih =>
    rw [← (hstep.between_inv h).2.2.2.1]
    exact ih (h.step hstep)
  | @poll d _ _ p polls hstep _ ih =>
    refine (ih (h.step hstep)).trans ?_
    rw [List.countP_cons]
    obtain ⟨hbefore, rfl, hquiet | hwaiting | hasking⟩ := hstep.poll_inv
    · show p.after.pollsSinceAttempt + _ ≤ _
      rw [hquiet.after, hbefore]
      omega
    · show p.after.pollsSinceAttempt + _ ≤ _
      have hsilent : p.silent = true := List.isEmpty_iff.mpr hwaiting.effects
      have hle : satSuccU32 d.state.pollsSinceAttempt ≤ d.state.pollsSinceAttempt + 1 :=
        min_le_right _ _
      rw [hwaiting.after, hbefore, if_pos hsilent]
      show satSuccU32 d.state.pollsSinceAttempt + _ ≤ _
      omega
    · show p.after.pollsSinceAttempt + _ ≤ _
      rw [hasking.after]
      show 0 + _ ≤ _
      omega

/-- The counter counts every silent poll that finds the wanted scheduler unconfirmed. -/
theorem Settled.counter_waiting (h : Settled config d) (hrun : Run config d polls d')
    (hwait : ∀ p ∈ polls, p.silent = true ∧ ¬ p.Confirmed config) :
    d'.state.pollsSinceAttempt = d.state.pollsSinceAttempt + polls.length := by
  induction hrun with
  | nil d => rfl
  | between hstep _ ih =>
    rw [ih (h.step hstep) hwait, (hstep.between_inv h).2.2.2.1]
  | @poll d _ _ p polls hstep _ ih =>
    rw [ih (h.step hstep) fun q hq => hwait q (List.mem_cons_of_mem p hq)]
    obtain ⟨hsilent, hunconfirmed⟩ := hwait p List.mem_cons_self
    obtain ⟨hbefore, rfl, hquiet | hwaiting | hasking⟩ := hstep.poll_inv
    · exact absurd hquiet.confirmed hunconfirmed
    · show p.after.pollsSinceAttempt + _ = _
      have hearly := hwaiting.early
      have hsucc : satSuccU32 p.before.pollsSinceAttempt = p.before.pollsSinceAttempt + 1 := by
        unfold satSuccU32 scxRetryPolls at *
        omega
      rw [hwaiting.after, List.length_cons, ← hbefore]
      show satSuccU32 p.before.pollsSinceAttempt + _ = _
      omega
    · exact absurd (List.isEmpty_iff.mp hsilent) hasking.ne_nil

/-- A confirmed scheduler stays confirmed, and the polls silent, while the profile is the same. -/
theorem Settled.confirmed_run (h : Settled config d) (hrun : Run config d polls d')
    (happlied : d.state.appliedScheduler = some (config.scheduler d.state.gamingPrev))
    (hsame : ∀ p ∈ polls, p.gaming = d.state.gamingPrev) :
    ∀ p ∈ polls, p.silent = true ∧ p.Confirmed config := by
  induction hrun with
  | nil d => exact fun p hp => absurd hp List.not_mem_nil
  | between hstep _ ih =>
    obtain ⟨-, -, hprev, -, hkept⟩ := hstep.between_inv h
    refine ih (h.step hstep) ?_ fun p hp => (hsame p hp).trans hprev.symm
    rw [hprev]
    rcases hkept with hkept | hkept
    · rw [hkept, happlied]
    · exact hkept
  | @poll d _ _ p polls hstep _ ih =>
    have hp := hsame p List.mem_cons_self
    have hprev := hstep.gamingPrev
    have hsettled := h.step hstep
    obtain ⟨hbefore, rfl, hcase⟩ := hstep.poll_inv
    have hconfirmed : p.Confirmed config := by
      rw [Poll.Confirmed, hbefore, happlied, hp]
    have hquiet : IsQuiet config p := by
      rcases hcase with hquiet | hwaiting | hasking
      · exact hquiet
      · exact absurd hconfirmed hwaiting.unconfirmed
      · exact absurd hconfirmed (hasking.due (by rw [hp, hbefore])).1
    have happlied' : p.after.appliedScheduler = some (config.scheduler p.after.gamingPrev) := by
      rw [hquiet.after, hbefore, happlied]
    have hrest := ih hsettled happlied' fun q hq =>
      (hsame q (List.mem_cons_of_mem p hq)).trans (hp.symm.trans hprev.symm)
    intro q hq
    rcases List.mem_cons.mp hq with rfl | hq
    · exact ⟨List.isEmpty_iff.mpr hquiet.effects, hconfirmed⟩
    · exact hrest q hq

/-! ### The performance mode -/

/-- The effects on the performance mode stand at the changes of the profile. -/
theorem Step.perf (h : Step config d (some p) d') (hperf : config.integratePerfMode = true) :
    p.perf = if p.gaming = d.state.gamingPrev then [] else [perfEffect p.gaming] := by
  obtain ⟨hbefore, -, hquiet | hwaiting | hasking⟩ := h.poll_inv
  · rw [Poll.perf, hquiet.effects, if_pos (hbefore ▸ hquiet.same)]
    rfl
  · rw [Poll.perf, hwaiting.effects, if_pos (hbefore ▸ hwaiting.same)]
    rfl
  · rw [hasking.perf, hbefore]
    by_cases hsame : p.gaming = d.state.gamingPrev
    · rw [if_neg (fun h => h.1 hsame), if_pos hsame]
    · rw [if_pos ⟨hsame, hperf⟩, if_neg hsame]

/-- Effects that alternate; the first one is that of a change to this profile. -/
def alternation : Bool → ℕ → List SchedEffect
  | _, 0 => []
  | gaming, n + 1 => perfEffect gaming :: alternation (!gaming) n

theorem Settled.perf_run (h : Settled config d) (hperf : config.integratePerfMode = true)
    (hrun : Run config d polls d') :
    ∃ n, polls.flatMap Poll.perf = alternation (!d.state.gamingPrev) n := by
  induction hrun with
  | nil d => exact ⟨0, rfl⟩
  | between hstep _ ih =>
    rw [← (hstep.between_inv h).2.2.1]
    exact ih (h.step hstep)
  | @poll d _ _ p polls hstep _ ih =>
    obtain ⟨n, hn⟩ := ih (h.step hstep)
    rw [hstep.gamingPrev] at hn
    rw [List.flatMap_cons, hstep.perf hperf, hn]
    by_cases hsame : p.gaming = d.state.gamingPrev
    · exact ⟨n, by rw [if_pos hsame, hsame, List.nil_append]⟩
    · have hflip : (!d.state.gamingPrev) = p.gaming := by
        cases hprev : d.state.gamingPrev <;> cases hnow : p.gaming <;> simp_all
      exact ⟨n + 1, by rw [if_neg hsame, hflip]; rfl⟩

/-! ### Whole runs -/

/-- What holds of the polls of a run. -/
structure Regular (config : SchedConfig) (polls : List Poll) : Prop where
  /-- The state after a poll describes the profile that the poll found. -/
  describes : ∀ p ∈ polls, p.after.gamingPrev = p.gaming ∧ p.after.profile = profileName p.gaming
  /-- A poll asks for the scheduler of its profile, or for nothing. -/
  asks_or_silent : ∀ p ∈ polls, p.Asks config ∨ p.silent = true
  /-- A poll that finds another profile than the last one asks for its scheduler. -/
  change_asks : ∀ before p after, polls = before ++ p :: after →
    p.gaming ≠ lastGaming before false → p.Asks config
  /-- Two requests without a change of the profile have the retry pause between them. -/
  paced : ∀ before first between second after,
    polls = before ++ first :: (between ++ second :: after) →
    first.silent = false → second.silent = false →
    (∀ q ∈ between ++ [second], q.gaming = first.gaming) →
    scxRetryPolls ≤ between.countP Poll.silent
  /-- The pause is not longer while the wanted scheduler is not confirmed. -/
  retried : ∀ before block after, polls = before ++ (block ++ after) →
    (∀ p ∈ block, p.silent = true ∧ ¬ p.Confirmed config) → block.length ≤ scxRetryPolls
  /-- A confirmed scheduler is not asked for again until the profile changes. -/
  confirmed_silent : ∀ before p same after, polls = before ++ p :: (same ++ after) →
    p.Confirmed config → (∀ q ∈ same, q.gaming = p.gaming) →
    (p.gaming = lastGaming before false → p.silent = true) ∧
      ∀ q ∈ same, q.silent = true ∧ q.Confirmed config
  /-- The performance mode is entered and left in turns, at the changes of the profile. -/
  perf_alternates : config.integratePerfMode = true →
    (∃ n, polls.flatMap Poll.perf = alternation true n) ∧
      ∀ before p after, polls = before ++ p :: after →
        p.perf = if p.gaming = lastGaming before false then [] else [perfEffect p.gaming]

/-- The daemon at a poll of a run, and after it. -/
theorem Settled.split (h : Settled config d) {before after : List Poll}
    (hrun : Run config d (before ++ p :: after) d'') :
    ∃ start d', Settled config start ∧
      start.state.gamingPrev = lastGaming before d.state.gamingPrev ∧
      start.state.pollsSinceAttempt ≤
        d.state.pollsSinceAttempt + before.countP Poll.silent ∧
      Step config start (some p) d' ∧ Run config d' after d'' := by
  obtain ⟨mid, hbefore, hrest⟩ := hrun.append_inv
  obtain ⟨start, d', hpause, hstep, hafter⟩ := hrest.cons_inv
  have hmid := h.run hbefore
  refine ⟨start, d', hmid.run hpause, ?_, ?_, hstep, hafter⟩
  · rw [hmid.gamingPrev_run hpause, ← h.gamingPrev_run hbefore]
    rfl
  · exact (hmid.counter_run_le hpause).trans (h.counter_run_le hbefore)

theorem Step.asks_or_silent (h : Step config d (some p) d') : p.Asks config ∨ p.silent = true := by
  obtain ⟨-, -, hquiet | hwaiting | hasking⟩ := h.poll_inv
  · exact Or.inr (List.isEmpty_iff.mpr hquiet.effects)
  · exact Or.inr (List.isEmpty_iff.mpr hwaiting.effects)
  · exact Or.inl hasking.asks

theorem Step.isAsking (h : Step config d (some p) d') (hloud : p.silent = false) :
    IsAsking config p := by
  obtain ⟨-, -, hquiet | hwaiting | hasking⟩ := h.poll_inv
  · rw [Poll.silent, hquiet.effects] at hloud
    exact absurd hloud nofun
  · rw [Poll.silent, hwaiting.effects] at hloud
    exact absurd hloud nofun
  · exact hasking

/-- A poll keeps the confirmation of the scheduler that it wants. -/
theorem Step.keeps_applied (h : Step config d (some p) d') (hconfirmed : p.Confirmed config) :
    d'.state.appliedScheduler = some (config.scheduler p.gaming) := by
  obtain ⟨-, rfl, hquiet | hwaiting | hasking⟩ := h.poll_inv
  · show p.after.appliedScheduler = _
    rw [hquiet.after, hconfirmed]
  · exact absurd hconfirmed hwaiting.unconfirmed
  · show p.after.appliedScheduler = _
    rw [hasking.after]
    exact hconfirmed

theorem lastGaming_of_same {gaming : Bool} (h : ∀ q ∈ polls, q.gaming = gaming) :
    lastGaming polls gaming = gaming := by
  unfold lastGaming
  cases hlast : polls.getLast? with
  | none => rfl
  | some q => exact h q (List.mem_of_getLast? hlast)

/-- Every run from the initial state is regular. -/
theorem run_regular (config : SchedConfig) (polls : List Poll) (d : Daemon)
    (hrun : Run config {} polls d) : Regular config polls := by
  have hnew := settled_new config
  refine ⟨fun p hp => ?_, fun p hp => ?_, ?_, ?_, ?_, ?_, fun hperf => ⟨?_, ?_⟩⟩
  · obtain ⟨before, after, rfl⟩ := List.append_of_mem hp
    obtain ⟨start, d', hstart, -, -, hstep, -⟩ := hnew.split hrun
    have hprofile := (hstart.step hstep).profile
    have hprev := hstep.gamingPrev
    obtain ⟨-, rfl, -⟩ := hstep.poll_inv
    exact ⟨hprev, hprofile.trans (congrArg profileName hprev)⟩
  · obtain ⟨before, after, rfl⟩ := List.append_of_mem hp
    obtain ⟨start, d', -, -, -, hstep, -⟩ := hnew.split hrun
    exact hstep.asks_or_silent
  · rintro before p after rfl hchange
    obtain ⟨start, d', -, hprev, -, hstep, -⟩ := hnew.split hrun
    obtain ⟨hbefore, -, hquiet | hwaiting | hasking⟩ := hstep.poll_inv
    · exact absurd (hquiet.same.trans (hbefore ▸ hprev)) hchange
    · exact absurd (hwaiting.same.trans (hbefore ▸ hprev)) hchange
    · exact hasking.asks
  · rintro before first between second after rfl hfirst hsecond hsame
    obtain ⟨start, d', hstart, -, -, hstep, hrest⟩ := hnew.split hrun
    have hasking := hstep.isAsking hfirst
    have hd' := hstart.step hstep
    have hprev := hstep.gamingPrev
    obtain ⟨-, rfl, -⟩ := hstep.poll_inv
    obtain ⟨start', d'', -, hprev', hcounter, hstep', -⟩ := hd'.split hrest
    have hzero : first.after.pollsSinceAttempt = 0 := by rw [hasking.after]
    have hlast : lastGaming between first.gaming = first.gaming :=
      lastGaming_of_same fun q hq => hsame q (List.mem_append_left _ hq)
    obtain ⟨hbefore, -, -⟩ := hstep'.poll_inv
    -- The second request is a retry, since the profile is still that of the first one.
    have hdue := ((hstep'.isAsking hsecond).due (by
      rw [hbefore, hprev', hprev, hlast]
      exact hsame second (by simp))).2
    rw [hbefore] at hdue
    refine hdue.trans (hcounter.trans ?_)
    show first.after.pollsSinceAttempt + _ ≤ _
    omega
  · rintro before block after rfl hwait
    obtain ⟨mid, hbefore, hrest⟩ := hrun.append_inv
    obtain ⟨mid', hblock, -⟩ := hrest.append_inv
    have hmid := hnew.run hbefore
    have hcount := hmid.counter_waiting hblock hwait
    have hle := (hmid.run hblock).counter
    omega
  · rintro before p same after rfl hconfirmed hsame
    obtain ⟨start, d', hstart, hprev, -, hstep, hrest⟩ := hnew.split hrun
    obtain ⟨_, hsameRun, -⟩ := hrest.append_inv
    have hd' := hstart.step hstep
    have hprev' := hstep.gamingPrev
    have happlied := hstep.keeps_applied hconfirmed
    obtain ⟨hbefore, -, hcase⟩ := hstep.poll_inv
    refine ⟨fun hunchanged => ?_, hd'.confirmed_run hsameRun ?_ fun q hq => ?_⟩
    · rcases hcase with hquiet | hwaiting | hasking
      · exact List.isEmpty_iff.mpr hquiet.effects
      · exact absurd hconfirmed hwaiting.unconfirmed
      · exact absurd hconfirmed (hasking.due (by rw [hbefore, hprev, hunchanged])).1
    · rw [happlied, hprev']
    · rw [hprev', hsame q hq]
  · exact hnew.perf_run hperf hrun
  · rintro before p after rfl
    obtain ⟨start, d', -, hprev, -, hstep, -⟩ := hnew.split hrun
    rw [hstep.perf hperf, hprev]

/-- A game is started, the switch is confirmed, and the game goes on. -/
def gameStart : List Poll :=
  [pollOf {} {} true, pollOf {} ((pollOf {} {} true).after.schedulerApplied "scx_rusty") true]

theorem run_regular_gameStart : (∃ d, Run {} {} gameStart d) ∧ Regular {} gameStart := by
  have hrun : ∃ d, Run {} {} gameStart d :=
    ⟨_, .poll (.poll {} true)
      (.between (.applied _ "scx_rusty" (by decide)) (.poll (.poll _ true) (.nil _)))⟩
  obtain ⟨d, hd⟩ := hrun
  exact ⟨⟨d, hd⟩, run_regular {} gameStart d hd⟩

end Kyth.Sched
