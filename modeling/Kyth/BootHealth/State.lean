import Mathlib.Data.List.AList
import Mathlib.Tactic

/-!
# Boot health (`boot_health.rs`)

The state counts failed boots for every image digest and quarantines a digest at a threshold. Five
pure transitions move it; `rollbackRetryDue` compares two states and says whether `bootc rollback`
should be attempted. Counts and times are `i64` in the source.
-/

namespace Kyth.BootHealth

/-- `HashMap<String, α>` keyed by digests. -/
abbrev DigestMap (α : Type) := AList fun _ : String => α

/-- `DEFAULT_FAILURE_THRESHOLD`. -/
def defaultFailureThreshold : ℤ := 3

/-- `QuarantineRecord`. -/
structure QuarantineRecord where
  digest : String := ""
  failures : ℤ := 0
  reason : String := ""
  firstFailedAt : ℤ := 0
  lastFailedAt : ℤ := 0
  deriving DecidableEq, Repr

/-- `BootHealthState` with its defaults. -/
structure BootHealthState where
  currentDigest : String := ""
  lastHealthyDigest : String := ""
  pendingDigest : String := ""
  status : String := "unknown"
  failures : ℤ := 0
  lastFailureBootId : String := ""
  lastReason : String := ""
  lastRecoveredDigest : String := ""
  lastRecoveryAt : ℤ := 0
  rolloutRing : String := "follow-image"
  updatedAt : ℤ := 0
  quarantined : DigestMap QuarantineRecord := ∅
  failuresByDigest : DigestMap ℤ := ∅
  rollbackAttemptedFor : String := ""
  lastRollbackError : String := ""
  lastRollbackAt : ℤ := 0
  deriving DecidableEq

/-- The tally of a digest: `failures_by_digest.get(digest).copied().unwrap_or(0)`. -/
def BootHealthState.tally (s : BootHealthState) (digest : String) : ℤ :=
  (s.failuresByDigest.lookup digest).getD 0

/-- The rollback slot holds an attempt for the digest that did not fail. -/
def BootHealthState.RolledBack (s : BootHealthState) (digest : String) : Prop :=
  s.rollbackAttemptedFor = digest ∧ s.lastRollbackError = ""

instance (s : BootHealthState) (digest : String) : Decidable (s.RolledBack digest) :=
  inferInstanceAs (Decidable (_ ∧ _))

/-- `record_staged`. -/
def recordStaged (s : BootHealthState) (digest rolloutRing : String) (now : ℤ) :
    BootHealthState :=
  { s with pendingDigest := digest, rolloutRing, updatedAt := now }

/-- `count_this_boot`: only the last boot that was reported is remembered. -/
def countsThisBoot (s : BootHealthState) (digest bootId : String) : Bool :=
  !(s.currentDigest == digest && s.lastFailureBootId == bootId)

/-- `digest_failures`: the tally of a digest with this report. -/
def digestFailures (s : BootHealthState) (digest bootId : String) : ℤ :=
  s.tally digest + if countsThisBoot s digest bootId then 1 else 0

/-- The record that a report at or above the threshold writes. -/
def failureRecord (s : BootHealthState) (digest bootId reason : String) (now : ℤ) :
    QuarantineRecord where
  digest
  failures := digestFailures s digest bootId
  reason
  firstFailedAt :=
    match s.quarantined.lookup digest with
    | some record => record.firstFailedAt
    | none => now
  lastFailedAt := now

/-- The quarantine records after a report. -/
def quarantinedAfter (s : BootHealthState) (digest bootId reason : String) (threshold now : ℤ) :
    DigestMap QuarantineRecord :=
  if threshold ≤ digestFailures s digest bootId then
    s.quarantined.insert digest (failureRecord s digest bootId reason now)
  else s.quarantined

/-- `record_failure`. -/
def recordFailure (s : BootHealthState) (digest bootId reason : String) (threshold now : ℤ) :
    BootHealthState :=
  let quarantined := quarantinedAfter s digest bootId reason threshold now
  { s with
    currentDigest := digest
    pendingDigest := if s.pendingDigest = digest then "" else s.pendingDigest
    status := if digest ∈ quarantined then "quarantined" else "unhealthy"
    failures := (if s.currentDigest = digest then s.failures else 0) +
      if countsThisBoot s digest bootId then 1 else 0
    lastFailureBootId := bootId
    lastReason := reason
    updatedAt := now
    quarantined
    failuresByDigest :=
      if countsThisBoot s digest bootId then
        s.failuresByDigest.insert digest (digestFailures s digest bootId)
      else s.failuresByDigest }

/-- `recovered_digest`: the quarantined deployment that the healthy one replaces. -/
def recoveredDigest (s : BootHealthState) (digest : String) : String :=
  if s.currentDigest ≠ digest ∧ s.currentDigest ∈ s.quarantined then s.currentDigest else ""

/-- `mark_healthy`. -/
def markHealthy (s : BootHealthState) (digest : String) (now : ℤ) : BootHealthState :=
  let recovered := recoveredDigest s digest
  { s with
    currentDigest := digest
    lastHealthyDigest := digest
    pendingDigest := if s.pendingDigest = digest then "" else s.pendingDigest
    status := if recovered = "" then "healthy" else "recovered"
    failures := 0
    lastFailureBootId := ""
    lastReason :=
      if recovered = "" then s.lastReason
      else "Automatically recovered from quarantined digest " ++ recovered
    lastRecoveredDigest := if recovered = "" then s.lastRecoveredDigest else recovered
    lastRecoveryAt := if recovered = "" then s.lastRecoveryAt else now
    updatedAt := now
    quarantined := s.quarantined.erase digest
    failuresByDigest := s.failuresByDigest.erase digest }

/-- `note_rollback_attempted`. -/
def noteRollbackAttempted (s : BootHealthState) (digest : String) (error : Option String)
    (now : ℤ) : BootHealthState :=
  { s with
    rollbackAttemptedFor := digest
    lastRollbackError := error.getD ""
    lastRollbackAt := now
    updatedAt := now }

/-- `clear_quarantine`: the rollback slot is emptied when it belongs to the digest. -/
def clearQuarantine (s : BootHealthState) (digest : String) (now : ℤ) : BootHealthState :=
  let mine := s.rollbackAttemptedFor = digest
  { s with
    quarantined := s.quarantined.erase digest
    failuresByDigest := s.failuresByDigest.erase digest
    rollbackAttemptedFor := if mine then "" else s.rollbackAttemptedFor
    lastRollbackError := if mine then "" else s.lastRollbackError
    lastRollbackAt := if mine then 0 else s.lastRollbackAt
    status :=
      if s.currentDigest = digest ∧ s.status = "quarantined" then "unhealthy" else s.status
    updatedAt := now }

/-- `rollback_retry_due`. -/
def rollbackRetryDue (before updated : BootHealthState) (digest : String) : Bool :=
  if digest ∉ updated.quarantined then false
  else if updated.rollbackAttemptedFor = digest ∧ updated.lastRollbackError = "" then false
  else if digest ∉ before.quarantined then true
  else if updated.rollbackAttemptedFor ≠ digest then false
  else if updated.lastRollbackError = "" then false
  else before.tally digest < updated.tally digest

/-! ### Transitions -/

/-- A transition with its arguments. -/
inductive Transition
  | recordStaged (digest rolloutRing : String) (now : ℤ)
  | recordFailure (digest bootId reason : String) (threshold now : ℤ)
  | markHealthy (digest : String) (now : ℤ)
  | noteRollbackAttempted (digest : String) (error : Option String) (now : ℤ)
  | clearQuarantine (digest : String) (now : ℤ)
  deriving DecidableEq

namespace Transition

/-- The digest a transition is about. -/
def digest : Transition → String
  | recordStaged digest _ _ | recordFailure digest _ _ _ _ | markHealthy digest _
  | noteRollbackAttempted digest _ _ | clearQuarantine digest _ => digest

/-- The clock of a transition. -/
def now : Transition → ℤ
  | recordStaged _ _ now | recordFailure _ _ _ _ now | markHealthy _ now
  | noteRollbackAttempted _ _ now | clearQuarantine _ now => now

/-- The state after a transition. -/
def apply (s : BootHealthState) : Transition → BootHealthState
  | recordStaged digest rolloutRing now => BootHealth.recordStaged s digest rolloutRing now
  | recordFailure digest bootId reason threshold now =>
      BootHealth.recordFailure s digest bootId reason threshold now
  | markHealthy digest now => BootHealth.markHealthy s digest now
  | noteRollbackAttempted digest error now =>
      BootHealth.noteRollbackAttempted s digest error now
  | clearQuarantine digest now => BootHealth.clearQuarantine s digest now

end Transition

/-- The state after a run of transitions from the default state. -/
def stateAfter (run : List Transition) : BootHealthState := run.foldl Transition.apply {}

@[simp] theorem stateAfter_nil : stateAfter [] = {} := rfl

@[simp] theorem stateAfter_concat (run : List Transition) (t : Transition) :
    stateAfter (run ++ [t]) = t.apply (stateAfter run) := by
  simp [stateAfter]

/-! ### What a transition leaves alone -/

variable {s before updated : BootHealthState} {digest other bootId reason : String}
  {threshold now : ℤ} {error : Option String}

@[simp] theorem recordStaged_currentDigest (ring : String) :
    (recordStaged s digest ring now).currentDigest = s.currentDigest := rfl

@[simp] theorem recordStaged_lastFailureBootId (ring : String) :
    (recordStaged s digest ring now).lastFailureBootId = s.lastFailureBootId := rfl

@[simp] theorem recordStaged_quarantined (ring : String) :
    (recordStaged s digest ring now).quarantined = s.quarantined := rfl

@[simp] theorem recordStaged_failuresByDigest (ring : String) :
    (recordStaged s digest ring now).failuresByDigest = s.failuresByDigest := rfl

@[simp] theorem recordStaged_rollbackAttemptedFor (ring : String) :
    (recordStaged s digest ring now).rollbackAttemptedFor = s.rollbackAttemptedFor := rfl

@[simp] theorem recordStaged_lastRollbackError (ring : String) :
    (recordStaged s digest ring now).lastRollbackError = s.lastRollbackError := rfl

@[simp] theorem recordFailure_currentDigest :
    (recordFailure s digest bootId reason threshold now).currentDigest = digest := rfl

@[simp] theorem recordFailure_lastFailureBootId :
    (recordFailure s digest bootId reason threshold now).lastFailureBootId = bootId := rfl

@[simp] theorem recordFailure_quarantined :
    (recordFailure s digest bootId reason threshold now).quarantined =
      quarantinedAfter s digest bootId reason threshold now := rfl

@[simp] theorem recordFailure_rollbackAttemptedFor :
    (recordFailure s digest bootId reason threshold now).rollbackAttemptedFor =
      s.rollbackAttemptedFor := rfl

@[simp] theorem recordFailure_lastRollbackError :
    (recordFailure s digest bootId reason threshold now).lastRollbackError =
      s.lastRollbackError := rfl

@[simp] theorem markHealthy_currentDigest : (markHealthy s digest now).currentDigest = digest := rfl

@[simp] theorem markHealthy_lastFailureBootId :
    (markHealthy s digest now).lastFailureBootId = "" := rfl

@[simp] theorem markHealthy_quarantined :
    (markHealthy s digest now).quarantined = s.quarantined.erase digest := rfl

@[simp] theorem markHealthy_failuresByDigest :
    (markHealthy s digest now).failuresByDigest = s.failuresByDigest.erase digest := rfl

@[simp] theorem markHealthy_rollbackAttemptedFor :
    (markHealthy s digest now).rollbackAttemptedFor = s.rollbackAttemptedFor := rfl

@[simp] theorem markHealthy_lastRollbackError :
    (markHealthy s digest now).lastRollbackError = s.lastRollbackError := rfl

@[simp] theorem noteRollbackAttempted_currentDigest :
    (noteRollbackAttempted s digest error now).currentDigest = s.currentDigest := rfl

@[simp] theorem noteRollbackAttempted_lastFailureBootId :
    (noteRollbackAttempted s digest error now).lastFailureBootId = s.lastFailureBootId := rfl

@[simp] theorem noteRollbackAttempted_quarantined :
    (noteRollbackAttempted s digest error now).quarantined = s.quarantined := rfl

@[simp] theorem noteRollbackAttempted_failuresByDigest :
    (noteRollbackAttempted s digest error now).failuresByDigest = s.failuresByDigest := rfl

@[simp] theorem noteRollbackAttempted_rollbackAttemptedFor :
    (noteRollbackAttempted s digest error now).rollbackAttemptedFor = digest := rfl

@[simp] theorem noteRollbackAttempted_lastRollbackError :
    (noteRollbackAttempted s digest error now).lastRollbackError = error.getD "" := rfl

@[simp] theorem clearQuarantine_currentDigest :
    (clearQuarantine s digest now).currentDigest = s.currentDigest := rfl

@[simp] theorem clearQuarantine_lastFailureBootId :
    (clearQuarantine s digest now).lastFailureBootId = s.lastFailureBootId := rfl

@[simp] theorem clearQuarantine_quarantined :
    (clearQuarantine s digest now).quarantined = s.quarantined.erase digest := rfl

@[simp] theorem clearQuarantine_failuresByDigest :
    (clearQuarantine s digest now).failuresByDigest = s.failuresByDigest.erase digest := rfl

@[simp] theorem clearQuarantine_rollbackAttemptedFor :
    (clearQuarantine s digest now).rollbackAttemptedFor =
      if s.rollbackAttemptedFor = digest then "" else s.rollbackAttemptedFor := rfl

@[simp] theorem clearQuarantine_lastRollbackError :
    (clearQuarantine s digest now).lastRollbackError =
      if s.rollbackAttemptedFor = digest then "" else s.lastRollbackError := rfl

/-! ### What a report does -/

theorem countsThisBoot_eq_false :
    countsThisBoot s digest bootId = false ↔
      s.currentDigest = digest ∧ s.lastFailureBootId = bootId := by
  simp [countsThisBoot]

theorem digestFailures_of_counts (h : countsThisBoot s digest bootId = true) :
    digestFailures s digest bootId = s.tally digest + 1 := by
  rw [digestFailures, if_pos h]

theorem digestFailures_of_repeated (h : countsThisBoot s digest bootId = false) :
    digestFailures s digest bootId = s.tally digest := by
  rw [digestFailures, h, if_neg Bool.false_ne_true, add_zero]

theorem tally_le_digestFailures : s.tally digest ≤ digestFailures s digest bootId := by
  unfold digestFailures
  split_ifs <;> omega

theorem lookup_recordFailure_ne (h : other ≠ digest) :
    (recordFailure s digest bootId reason threshold now).failuresByDigest.lookup other =
      s.failuresByDigest.lookup other := by
  show (if countsThisBoot s digest bootId then _ else _ : DigestMap ℤ).lookup other = _
  split_ifs
  · exact AList.lookup_insert_ne h
  · rfl

/-- After a report the tally of the digest is what the report compared with the threshold. -/
theorem tally_recordFailure_self :
    (recordFailure s digest bootId reason threshold now).tally digest =
      digestFailures s digest bootId := by
  cases hcounts : countsThisBoot s digest bootId with
  | true => simp [BootHealthState.tally, recordFailure, hcounts]
  | false =>
    rw [digestFailures_of_repeated hcounts]
    simp [BootHealthState.tally, recordFailure, hcounts]

theorem lookup_quarantinedAfter_ne (h : other ≠ digest) :
    (quarantinedAfter s digest bootId reason threshold now).lookup other =
      s.quarantined.lookup other := by
  unfold quarantinedAfter
  split_ifs
  · exact AList.lookup_insert_ne h
  · rfl

theorem mem_quarantinedAfter_ne (h : other ≠ digest) :
    other ∈ quarantinedAfter s digest bootId reason threshold now ↔ other ∈ s.quarantined := by
  rw [← AList.lookup_isSome, lookup_quarantinedAfter_ne h, AList.lookup_isSome]

/-- A report quarantines its digest exactly at the threshold, and never lifts a quarantine. -/
theorem mem_quarantinedAfter_self :
    digest ∈ quarantinedAfter s digest bootId reason threshold now ↔
      threshold ≤ digestFailures s digest bootId ∨ digest ∈ s.quarantined := by
  unfold quarantinedAfter
  split_ifs with hreached
  · simp [hreached]
  · simp [hreached]

theorem mem_quarantinedAfter_of_mem (h : other ∈ s.quarantined) :
    other ∈ quarantinedAfter s digest bootId reason threshold now := by
  by_cases hother : other = digest
  · subst hother
    exact mem_quarantinedAfter_self.2 (.inr h)
  · exact (mem_quarantinedAfter_ne hother).2 h

/-! ### When a rollback is due -/

/-- For a digest that was quarantined before, only a failed attempt of its own is retried. -/
theorem rollbackRetryDue_of_mem (h : digest ∈ before.quarantined) :
    rollbackRetryDue before updated digest = true ↔
      digest ∈ updated.quarantined ∧ updated.rollbackAttemptedFor = digest ∧
        updated.lastRollbackError ≠ "" ∧ before.tally digest < updated.tally digest := by
  unfold rollbackRetryDue
  split_ifs with hupdated hrolled hslot herror
  all_goals grind

/-- For a digest that is quarantined now, a rollback is due unless the slot holds its success. -/
theorem rollbackRetryDue_of_not_mem (h : digest ∉ before.quarantined) :
    rollbackRetryDue before updated digest = true ↔
      digest ∈ updated.quarantined ∧ ¬ updated.RolledBack digest := by
  unfold rollbackRetryDue BootHealthState.RolledBack
  split_ifs with hupdated hrolled
  all_goals grind

theorem mem_of_rollbackRetryDue (h : rollbackRetryDue before updated digest = true) :
    digest ∈ updated.quarantined := by
  by_contra hnot
  simp [rollbackRetryDue, hnot] at h

end Kyth.BootHealth
