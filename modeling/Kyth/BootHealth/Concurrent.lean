import Kyth.BootHealth.Coordinator
import Kyth.BootHealth.Rollback

/-!
# Concurrent reports (`boot_health_bin.rs`)

Several `kyth-boot-health record-failure` invocations report the same boot. Each reads the state,
runs the locked transaction, evaluates `rollback_retry_due`, runs `bootc rollback` and notes the
attempt, one atomic step each. The state is read before the transaction takes the lock, so the
snapshot may be older than the state that the transaction changes.
-/

namespace Kyth.BootHealth

/-- How far an invocation is. -/
inductive Phase
  | started
  | read (before : BootHealthState)
  | recorded (before updated : BootHealthState)
  | attempting
  | rolledBack (outcome : Option String)
  | finished
  deriving DecidableEq

/-- A step of an invocation, with what it learns from outside. -/
inductive Action
  | read
  | record (reason : String) (threshold now : ℤ)
  | evaluate
  | rollback (outcome : Option String)
  | note (now : ℤ)
  deriving DecidableEq

/-- The state file, the invocations, and the outcomes of the `bootc rollback` runs so far. -/
structure System where
  shared : BootHealthState
  phases : List Phase
  rollbacks : List (Option String) := []

namespace System

/-- The system before `count` invocations. -/
def initial (shared : BootHealthState) (count : ℕ) : System where
  shared
  phases := List.replicate count .started

/-- A transaction that the invariants refuse ends its invocation and leaves the file alone. -/
def commit (s : System) (i : ℕ) (updated : BootHealthState) (next : Phase) : System :=
  if updated.invariants = [] then { s with shared := updated, phases := s.phases.set i next }
  else { s with phases := s.phases.set i .finished }

/-- One step of an invocation. Steps out of turn do nothing. -/
def step (digest bootId : String) (s : System) (i : ℕ) (action : Action) : System :=
  match s.phases[i]?, action with
  | some .started, .read => { s with phases := s.phases.set i (.read s.shared) }
  | some (.read before), .record reason threshold now =>
      let updated := recordFailure s.shared digest bootId reason threshold now
      s.commit i updated (.recorded before updated)
  | some (.recorded before updated), .evaluate =>
      let next := if rollbackRetryDue before updated digest then .attempting else .finished
      { s with phases := s.phases.set i next }
  | some .attempting, .rollback outcome =>
      { s with
        phases := s.phases.set i (.rolledBack outcome)
        rollbacks := s.rollbacks ++ [outcome] }
  | some (.rolledBack outcome), .note now =>
      s.commit i (noteRollbackAttempted s.shared digest outcome now) .finished
  | _, _ => s

/-- A schedule of steps. -/
def run (digest bootId : String) (s : System) (schedule : List (ℕ × Action)) : System :=
  schedule.foldl (fun s turn => s.step digest bootId turn.1 turn.2) s

/-- The snapshot of an invocation that records its failure is not from before the quarantine that
the file already holds. -/
def FreshAt (digest : String) (s : System) (i : ℕ) : Action → Prop
  | .record _ _ _ =>
      match s.phases[i]? with
      | some (.read before) => digest ∉ before.quarantined → digest ∉ s.shared.quarantined
      | _ => True
  | _ => True

/-- Every step of a schedule works on a fresh snapshot. -/
def Fresh (digest bootId : String) : System → List (ℕ × Action) → Prop
  | _, [] => True
  | s, (i, action) :: schedule =>
      s.FreshAt digest i action ∧ Fresh digest bootId (s.step digest bootId i action) schedule

end System

/-! ### Counting attempts -/

/-- The invocation has a rollback to run. -/
def Phase.pending (digest : String) : Phase → Bool
  | .recorded before updated => rollbackRetryDue before updated digest
  | .attempting => true
  | _ => false

/-- Replacing an element changes a count by that element alone. -/
theorem countP_set_add {α : Type} {p : α → Bool} {l : List α} {i : ℕ} {a : α} (b : α)
    (h : l[i]? = some a) :
    (l.set i b).countP p + (if p a then 1 else 0) = l.countP p + if p b then 1 else 0 := by
  induction l generalizing i with
  | nil => simp at h
  | cons c l ih =>
    cases i with
    | zero =>
      obtain rfl : c = a := by simpa using h
      simp only [List.set_cons_zero, List.countP_cons]
      omega
    | succ i =>
      have ih := ih (by simpa using h)
      simp only [List.set_cons_succ, List.countP_cons]
      omega

namespace System

variable {digest bootId : String} {s : System} {i : ℕ} {action : Action}
  {schedule : List (ℕ × Action)}

/-- The rollbacks that ran or are about to run. -/
def attempts (digest : String) (s : System) : ℕ :=
  s.rollbacks.length + s.phases.countP (Phase.pending digest)

/-- At most `bound` rollbacks are run or about to run, and none while the digest is not
quarantined. -/
structure AtMost (digest : String) (bound : ℕ) (s : System) : Prop where
  attempts : s.attempts digest ≤ bound
  waiting : digest ∉ s.shared.quarantined → s.attempts digest = 0 ∧ bound = 1
  slot : NoFailedAttempt digest s.shared
  noted : ∀ outcome, Phase.rolledBack outcome ∈ s.phases → outcome = none

variable {bound : ℕ}

/-- Replacing the phase of an invocation by one that is as pending as the old one. -/
theorem attempts_set {phase next : Phase} (hphase : s.phases[i]? = some phase)
    (hsame : next.pending digest = phase.pending digest) :
    s.rollbacks.length + (s.phases.set i next).countP (Phase.pending digest) =
      s.attempts digest := by
  have hcount := countP_set_add (p := Phase.pending digest) next hphase
  rw [hsame] at hcount
  unfold attempts
  omega

theorem AtMost.noted_set (h : s.AtMost digest bound) (i : ℕ) {next : Phase}
    (hnext : ∀ outcome, next = .rolledBack outcome → outcome = none) (outcome : Option String)
    (hmem : Phase.rolledBack outcome ∈ s.phases.set i next) : outcome = none := by
  obtain hmem | heq := List.mem_or_eq_of_mem_set hmem
  · exact h.noted outcome hmem
  · exact hnext outcome heq.symm

/-- A step that keeps the file and the pending rollbacks keeps the invariant. -/
theorem AtMost.of_set (h : s.AtMost digest bound) {phase next : Phase}
    (hphase : s.phases[i]? = some phase) (hsame : next.pending digest = phase.pending digest)
    (hnext : ∀ outcome, next = .rolledBack outcome → outcome = none) :
    AtMost digest bound { s with phases := s.phases.set i next } where
  attempts := (attempts_set hphase hsame).trans_le h.attempts
  waiting hnot := ⟨(attempts_set hphase hsame).trans (h.waiting hnot).1, (h.waiting hnot).2⟩
  slot := h.slot
  noted := h.noted_set i hnext

/-- A recorded failure asks for a rollback only when it quarantines the digest. -/
theorem pending_recorded {before : BootHealthState} {reason : String} {threshold now : ℤ}
    (hslot : NoFailedAttempt digest s.shared)
    (hfresh : digest ∉ before.quarantined → digest ∉ s.shared.quarantined)
    (hpending : rollbackRetryDue before
      (recordFailure s.shared digest bootId reason threshold now) digest = true) :
    digest ∉ s.shared.quarantined := by
  by_cases hbefore : digest ∈ before.quarantined
  · obtain ⟨-, hmine, herror, -⟩ := (rollbackRetryDue_of_mem hbefore).1 hpending
    exact absurd (hslot hmine) herror
  · exact hfresh hbefore

theorem AtMost.record (h : s.AtMost digest bound) {before : BootHealthState} {reason : String}
    {threshold now : ℤ} (hphase : s.phases[i]? = some (.read before))
    (hfresh : digest ∉ before.quarantined → digest ∉ s.shared.quarantined) :
    AtMost digest bound
      (s.commit i (recordFailure s.shared digest bootId reason threshold now)
        (.recorded before (recordFailure s.shared digest bootId reason threshold now))) := by
  set updated := recordFailure s.shared digest bootId reason threshold now with hupdated
  unfold commit
  split_ifs with hvalid
  · have hcount := countP_set_add (p := Phase.pending digest) (Phase.recorded before updated) hphase
    have hslot : NoFailedAttempt digest updated := h.slot
    have hnoted : ∀ outcome, Phase.rolledBack outcome ∈
        s.phases.set i (.recorded before updated) → outcome = none := h.noted_set i (by simp)
    cases hdue : rollbackRetryDue before updated digest with
    | true =>
      -- the first record that quarantines the digest takes the only attempt
      have hnot := pending_recorded h.slot hfresh hdue
      obtain ⟨hzero, hbound⟩ := h.waiting hnot
      unfold System.attempts at hzero
      refine ⟨?_, fun hnot' => absurd (mem_of_rollbackRetryDue hdue) hnot', hslot, hnoted⟩
      simp only [Phase.pending, hdue, if_true, Bool.false_eq_true, if_false] at hcount
      show s.rollbacks.length +
        (s.phases.set i (.recorded before updated)).countP (Phase.pending digest) ≤ bound
      omega
    | false =>
      have hsame : (Phase.recorded before updated).pending digest =
          (Phase.read before).pending digest := hdue
      refine ⟨(attempts_set hphase hsame).trans_le h.attempts, fun hnot => ?_, hslot, hnoted⟩
      have hold : digest ∉ s.shared.quarantined := fun hmem =>
        hnot (mem_quarantinedAfter_of_mem hmem)
      exact ⟨(attempts_set hphase hsame).trans (h.waiting hold).1, (h.waiting hold).2⟩
  · exact h.of_set hphase rfl (by simp)

theorem AtMost.note (h : s.AtMost digest bound) {outcome : Option String} {now : ℤ}
    (hphase : s.phases[i]? = some (.rolledBack outcome)) :
    AtMost digest bound
      (s.commit i (noteRollbackAttempted s.shared digest outcome now) .finished) := by
  unfold commit
  split_ifs
  · have hkept : AtMost digest bound { s with phases := s.phases.set i .finished } :=
      h.of_set hphase rfl (by simp)
    refine { hkept with slot := fun _ => ?_ }
    obtain rfl := h.noted outcome (List.mem_of_getElem? hphase)
    rfl
  · exact h.of_set hphase rfl (by simp)

/-- What a step of an invocation can do. -/
inductive Moved (digest bootId : String) (s : System) (i : ℕ) : Action → System → Prop
  | idle (action : Action) : Moved digest bootId s i action s
  | read (hphase : s.phases[i]? = some .started) :
      Moved digest bootId s i .read { s with phases := s.phases.set i (.read s.shared) }
  | record {before : BootHealthState} (hphase : s.phases[i]? = some (.read before))
      (reason : String) (threshold now : ℤ) :
      Moved digest bootId s i (.record reason threshold now)
        (s.commit i (recordFailure s.shared digest bootId reason threshold now)
          (.recorded before (recordFailure s.shared digest bootId reason threshold now)))
  | evaluate {before updated : BootHealthState}
      (hphase : s.phases[i]? = some (.recorded before updated)) {next : Phase}
      (hnext : next = if rollbackRetryDue before updated digest then .attempting else .finished) :
      Moved digest bootId s i .evaluate { s with phases := s.phases.set i next }
  | rollback (hphase : s.phases[i]? = some .attempting) (outcome : Option String) :
      Moved digest bootId s i (.rollback outcome)
        { s with
          phases := s.phases.set i (.rolledBack outcome)
          rollbacks := s.rollbacks ++ [outcome] }
  | note {outcome : Option String} (hphase : s.phases[i]? = some (.rolledBack outcome)) (now : ℤ) :
      Moved digest bootId s i (.note now)
        (s.commit i (noteRollbackAttempted s.shared digest outcome now) .finished)

theorem moved (digest bootId : String) (s : System) (i : ℕ) (action : Action) :
    Moved digest bootId s i action (s.step digest bootId i action) := by
  unfold System.step
  split
  · exact .read (by assumption)
  · exact .record (by assumption) _ _ _
  · exact .evaluate (by assumption) rfl
  · exact .rollback (by assumption) _
  · exact .note (by assumption) _
  · exact .idle _

theorem AtMost.rollback (h : s.AtMost digest bound) (hphase : s.phases[i]? = some .attempting) :
    AtMost digest bound
      { s with phases := s.phases.set i (.rolledBack none), rollbacks := s.rollbacks ++ [none] } := by
  -- the attempt moves from the pending ones to those that ran
  have hcount := countP_set_add (p := Phase.pending digest) (Phase.rolledBack none) hphase
  simp only [Phase.pending, if_true, Bool.false_eq_true, if_false] at hcount
  have hsame : (s.rollbacks ++ [none]).length +
      (s.phases.set i (.rolledBack none)).countP (Phase.pending digest) = s.attempts digest := by
    unfold System.attempts
    rw [List.length_append, List.length_singleton]
    omega
  refine ⟨hsame.trans_le h.attempts, fun hnot => ?_, h.slot, h.noted_set i fun outcome heq => ?_⟩
  · exact ⟨hsame.trans (h.waiting hnot).1, (h.waiting hnot).2⟩
  · cases heq
    rfl

theorem AtMost.step (h : s.AtMost digest bound) (hfresh : s.FreshAt digest i action)
    (hsucceeds : ∀ outcome ∈ (s.step digest bootId i action).rollbacks, outcome = none) :
    (s.step digest bootId i action).AtMost digest bound := by
  generalize hnext : s.step digest bootId i action = s' at hsucceeds ⊢
  have hmoved : Moved digest bootId s i action s' := hnext ▸ moved digest bootId s i action
  cases hmoved with
  | idle => exact h
  | read hphase => exact h.of_set hphase rfl (by simp)
  | record hphase reason threshold now =>
    unfold FreshAt at hfresh
    simp only [hphase] at hfresh
    exact h.record hphase hfresh
  | evaluate hphase hdecided =>
    refine h.of_set hphase ?_ ?_
    · rw [hdecided, Phase.pending]
      split_ifs with hdue
      · rw [hdue, Phase.pending]
      · rw [Bool.eq_false_iff.2 hdue, Phase.pending]
        all_goals simp
    · intro outcome heq
      rw [hdecided] at heq
      split_ifs at heq
  | rollback hphase outcome =>
    obtain rfl : outcome = none := hsucceeds outcome (by simp)
    exact h.rollback hphase
  | note hphase now => exact h.note hphase

/-- The outcomes that are on record stay on record. -/
theorem mem_rollbacks_step {outcome : Option String} (h : outcome ∈ s.rollbacks) :
    outcome ∈ (s.step digest bootId i action).rollbacks := by
  have hcommit (updated : BootHealthState) (next : Phase) :
      (s.commit i updated next).rollbacks = s.rollbacks := by
    unfold commit
    split_ifs <;> rfl
  generalize hnext : s.step digest bootId i action = s'
  have hmoved : Moved digest bootId s i action s' := hnext ▸ moved digest bootId s i action
  cases hmoved with
  | idle => exact h
  | read hphase => exact h
  | record hphase reason threshold now => rwa [hcommit]
  | evaluate hphase hdecided => exact h
  | rollback hphase outcome' => exact List.mem_append_left _ h
  | note hphase now => rwa [hcommit]

theorem mem_rollbacks_run {outcome : Option String} (h : outcome ∈ s.rollbacks) :
    outcome ∈ (s.run digest bootId schedule).rollbacks := by
  induction schedule generalizing s with
  | nil => exact h
  | cons turn schedule ih => exact ih (mem_rollbacks_step h)

theorem AtMost.run (h : s.AtMost digest bound) (hfresh : s.Fresh digest bootId schedule)
    (hsucceeds : ∀ outcome ∈ (s.run digest bootId schedule).rollbacks, outcome = none) :
    (s.run digest bootId schedule).AtMost digest bound := by
  induction schedule generalizing s with
  | nil => exact h
  | cons turn schedule ih =>
    refine ih (h.step hfresh.1 fun outcome houtcome => ?_) hfresh.2 hsucceeds
    have hlater : outcome ∈
        ((s.step digest bootId turn.1 turn.2).run digest bootId schedule).rollbacks :=
      mem_rollbacks_run houtcome
    exact hsucceeds outcome hlater

theorem atMost_initial {shared : BootHealthState} (count : ℕ)
    (hslot : NoFailedAttempt digest shared) :
    (initial shared count).AtMost digest (if digest ∈ shared.quarantined then 0 else 1) := by
  have hzero : (initial shared count).attempts digest = 0 := by
    simp [initial, attempts, List.countP_replicate, Phase.pending]
  refine ⟨by omega, fun hnot => ⟨hzero, if_neg hnot⟩, hslot, fun outcome hmem => ?_⟩
  cases List.eq_of_mem_replicate hmem

/-- While no attempt fails, `bootc rollback` runs at most once for a quarantine that the
invocations bring about, and not at all for one that they find, in every schedule in which no
invocation records its failure with a snapshot from before the quarantine. -/
theorem rollback_once_of_fresh {shared : BootHealthState} {count : ℕ}
    (hslot : NoFailedAttempt digest shared)
    (hfresh : (initial shared count).Fresh digest bootId schedule)
    (hsucceeds : ∀ outcome ∈ ((initial shared count).run digest bootId schedule).rollbacks,
      outcome = none) :
    ((initial shared count).run digest bootId schedule).rollbacks.length ≤
      if digest ∈ shared.quarantined then 0 else 1 :=
  (Nat.le_add_right _ _).trans ((atMost_initial count hslot).run hfresh hsucceeds).attempts

/-- A digest that failed two boots. -/
def twoFailures : BootHealthState :=
  stateAfter [.recordFailure "sha256:a" "boot-1" "display" defaultFailureThreshold 1,
    .recordFailure "sha256:a" "boot-2" "display" defaultFailureThreshold 2]

/-- The steps of one invocation up to its rollback. -/
def wholeInvocation (i : ℕ) : List (ℕ × Action) :=
  [(i, .read), (i, .record "display" defaultFailureThreshold 3), (i, .evaluate), (i, .rollback none)]

/-- Two invocations one after the other. -/
def sequentialSchedule : List (ℕ × Action) :=
  wholeInvocation 0 ++ (0, .note 4) :: wholeInvocation 1

theorem rollback_once_sequentialSchedule :
    ((initial twoFailures 2).run "sha256:a" "boot-3" sequentialSchedule).rollbacks.length ≤ 1 := by
  have hslot : NoFailedAttempt "sha256:a" twoFailures := by
    intro _
    decide
  have hfresh : (initial twoFailures 2).Fresh "sha256:a" "boot-3" sequentialSchedule := by
    refine ⟨trivial, ?_, trivial, trivial, trivial, trivial, ?_, trivial, trivial, trivial⟩
    · exact id
    · exact id
  exact rollback_once_of_fresh hslot hfresh (by decide)

/-- Both invocations read the state before either of them records the failure that quarantines the
digest, and both roll back. -/
theorem stale_snapshot_rolls_back_twice :
    NoFailedAttempt "sha256:a" twoFailures ∧
      ((initial twoFailures 2).run "sha256:a" "boot-3"
        [(0, .read), (1, .read), (0, .record "display" defaultFailureThreshold 3),
          (1, .record "display" defaultFailureThreshold 3), (0, .evaluate), (1, .evaluate),
          (0, .rollback none), (1, .rollback none)]).rollbacks = [none, none] := by
  refine ⟨fun _ => ?_, ?_⟩ <;> decide

end System

end Kyth.BootHealth
