import Kyth.Lib.Serde
import Kyth.BootHealth.State

/-!
# The state file (`state_from_json`)

The state is written as a JSON object with a schema version and read back by a tolerant decoder: it
drops quarantine entries that do not have exactly the five fields of a record, drops negative
tallies, and falls back to the empty state when a field has another type. `decode_document` says
that none of this happens to a state that the transitions reach.
-/

namespace Kyth.BootHealth

open Json Serde

/-- A serialized `QuarantineRecord`. -/
def encodeRecord (record : QuarantineRecord) : Value :=
  .object
    [("digest", .string record.digest), ("failures", ofI64 record.failures),
      ("reason", .string record.reason), ("first_failed_at", ofI64 record.firstFailedAt),
      ("last_failed_at", ofI64 record.lastFailedAt)]

/-- The fields of a serialized `BootHealthState`. -/
def encodeState (s : BootHealthState) : List (String × Value) :=
  [("current_digest", .string s.currentDigest), ("last_healthy_digest", .string s.lastHealthyDigest),
    ("pending_digest", .string s.pendingDigest), ("status", .string s.status),
    ("failures", ofI64 s.failures), ("last_failure_boot_id", .string s.lastFailureBootId),
    ("last_reason", .string s.lastReason), ("last_recovered_digest", .string s.lastRecoveredDigest),
    ("last_recovery_at", ofI64 s.lastRecoveryAt), ("rollout_ring", .string s.rolloutRing),
    ("updated_at", ofI64 s.updatedAt), ("quarantined", .object (encodeMap encodeRecord s.quarantined)),
    ("failures_by_digest", .object (encodeMap ofI64 s.failuresByDigest)),
    ("rollback_attempted_for", .string s.rollbackAttemptedFor),
    ("last_rollback_error", .string s.lastRollbackError),
    ("last_rollback_at", ofI64 s.lastRollbackAt)]

/-- The document that `transaction` writes. -/
def document (s : BootHealthState) : Value :=
  (Value.object (encodeState s)).set "schema_version" (.nat 1)

/-- `from_value::<QuarantineRecord>`. -/
def decodeRecord (fields : List (String × Value)) : Option QuarantineRecord := do
  let digest ← field fields "digest" "" Value.asStr
  let failures ← field fields "failures" 0 decodeI64
  let reason ← field fields "reason" "" Value.asStr
  let firstFailedAt ← field fields "first_failed_at" 0 decodeI64
  let lastFailedAt ← field fields "last_failed_at" 0 decodeI64
  return { digest, failures, reason, firstFailedAt, lastFailedAt }

/-- The keys of a record. -/
def recordKeys : List String := ["digest", "failures", "reason", "first_failed_at", "last_failed_at"]

/-- One turn of the quarantine loop of `state_from_json`. -/
def decodeQuarantine (digest : String) : Value → Option QuarantineRecord
  | .object fields =>
      if fields.length ≠ 5 || !recordKeys.all (fun key => (fields.lookup key).isSome) then none
      else
        match decodeRecord fields with
        | some record => if record.digest = digest then some record else none
        | none => none
  | _ => none

/-- The quarantine loop of `state_from_json`. -/
def decodeQuarantined : Option Value → DigestMap QuarantineRecord
  | some (.object raw) => collect decodeQuarantine raw
  | _ => ∅

/-- `from_value::<BootHealthState>`, after the quarantine was taken out of the object. -/
def decodeState (fields : List (String × Value)) : Option BootHealthState := do
  let currentDigest ← field fields "current_digest" "" Value.asStr
  let lastHealthyDigest ← field fields "last_healthy_digest" "" Value.asStr
  let pendingDigest ← field fields "pending_digest" "" Value.asStr
  let status ← field fields "status" "unknown" Value.asStr
  let failures ← field fields "failures" 0 decodeI64
  let lastFailureBootId ← field fields "last_failure_boot_id" "" Value.asStr
  let lastReason ← field fields "last_reason" "" Value.asStr
  let lastRecoveredDigest ← field fields "last_recovered_digest" "" Value.asStr
  let lastRecoveryAt ← field fields "last_recovery_at" 0 decodeI64
  let rolloutRing ← field fields "rollout_ring" "follow-image" Value.asStr
  let updatedAt ← field fields "updated_at" 0 decodeI64
  let failuresByDigest ← field fields "failures_by_digest" ∅ (decodeMap decodeI64)
  let rollbackAttemptedFor ← field fields "rollback_attempted_for" "" Value.asStr
  let lastRollbackError ← field fields "last_rollback_error" "" Value.asStr
  let lastRollbackAt ← field fields "last_rollback_at" 0 decodeI64
  return { currentDigest, lastHealthyDigest, pendingDigest, status, failures, lastFailureBootId,
           lastReason, lastRecoveredDigest, lastRecoveryAt, rolloutRing, updatedAt,
           failuresByDigest, rollbackAttemptedFor, lastRollbackError, lastRollbackAt }

/-- The schema version of a document; a missing one counts as the current version. -/
def schemaVersion (fields : List (String × Value)) : UInt64 :=
  match fields.lookup "schema_version" with
  | none => 1
  | some (.number n) => n.asU64.getD 0
  | some _ => 0

/-- The tallies that are not negative: `retain(|_, count| *count >= 0)`. -/
def retainTallies (tallies : DigestMap ℤ) : DigestMap ℤ :=
  collect (fun _ count => if 0 ≤ count then some count else none) (encodeMap id tallies)

/-- `state_from_json` on the parsed text, which is `none` when the text is not JSON. -/
def stateFromJson : Option Value → BootHealthState
  | some (.object fields) =>
      if schemaVersion fields ≠ 1 then {}
      else
        let quarantined := decodeQuarantined (fields.lookup "quarantined")
        match decodeState (fields.filter fun e => e.1 ≠ "quarantined") with
        | some s =>
            { s with quarantined, failuresByDigest := retainTallies s.failuresByDigest }
        | none => {}
  | _ => {}

/-! ### Values of the source's type -/

/-- The integers of a record are `i64` values. -/
structure QuarantineRecord.Fits (record : QuarantineRecord) : Prop where
  failures : InI64 record.failures
  firstFailedAt : InI64 record.firstFailedAt
  lastFailedAt : InI64 record.lastFailedAt

/-- The integers of a state are `i64` values. -/
structure BootHealthState.Fits (s : BootHealthState) : Prop where
  failures : InI64 s.failures
  lastRecoveryAt : InI64 s.lastRecoveryAt
  updatedAt : InI64 s.updatedAt
  lastRollbackAt : InI64 s.lastRollbackAt
  tally : ∀ digest count, s.failuresByDigest.lookup digest = some count → InI64 count
  record : ∀ digest record, s.quarantined.lookup digest = some record → record.Fits

/-! ### What the transitions keep -/

/-- Every record is filed under its own digest, and no count is negative. -/
structure BootHealthState.Kept (s : BootHealthState) : Prop where
  key : ∀ digest record, s.quarantined.lookup digest = some record → record.digest = digest
  record : ∀ digest record, s.quarantined.lookup digest = some record → 0 ≤ record.failures
  tally : ∀ digest count, s.failuresByDigest.lookup digest = some count → 0 ≤ count
  failures : 0 ≤ s.failures

variable {s : BootHealthState}

theorem kept_default : ({} : BootHealthState).Kept where
  key _ _ h := by cases h
  record _ _ h := by cases h
  tally _ _ h := by cases h
  failures := le_rfl

theorem lookup_of_erase {α : Type} {m : DigestMap α} {digest other : String} {a : α}
    (h : (m.erase digest).lookup other = some a) : m.lookup other = some a := by
  by_cases hother : other = digest
  · subst hother
    rw [AList.lookup_erase] at h
    cases h
  · rwa [AList.lookup_erase_ne hother] at h

theorem BootHealthState.Kept.tally_nonneg (h : s.Kept) (digest : String) : 0 ≤ s.tally digest := by
  unfold BootHealthState.tally
  cases hlookup : s.failuresByDigest.lookup digest with
  | none => exact le_rfl
  | some count => exact h.tally digest count hlookup

theorem BootHealthState.Kept.digestFailures_nonneg (h : s.Kept) (digest bootId : String) :
    0 ≤ digestFailures s digest bootId :=
  (h.tally_nonneg digest).trans tally_le_digestFailures

/-- A record after a report is an old one, or the one that the report writes. -/
theorem lookup_quarantinedAfter {digest bootId reason other : String} {threshold now : ℤ}
    {record : QuarantineRecord}
    (h : (quarantinedAfter s digest bootId reason threshold now).lookup other = some record) :
    s.quarantined.lookup other = some record ∨
      other = digest ∧ threshold ≤ digestFailures s digest bootId ∧
        record = failureRecord s digest bootId reason now := by
  unfold quarantinedAfter at h
  split_ifs at h with hreached
  · by_cases hother : other = digest
    · subst hother
      rw [AList.lookup_insert] at h
      cases h
      exact .inr ⟨rfl, hreached, rfl⟩
    · rw [AList.lookup_insert_ne hother] at h
      exact .inl h
  · exact .inl h

/-- A tally after a report is an old one, or the one that the report writes. -/
theorem lookup_recordFailure {digest bootId reason other : String} {threshold now count : ℤ}
    (h : (recordFailure s digest bootId reason threshold now).failuresByDigest.lookup other =
      some count) :
    s.failuresByDigest.lookup other = some count ∨
      other = digest ∧ count = digestFailures s digest bootId := by
  by_cases hother : other = digest
  · subst hother
    cases hcounts : countsThisBoot s other bootId with
    | true =>
      simp only [recordFailure, hcounts, if_true, AList.lookup_insert, Option.some.injEq] at h
      exact .inr ⟨rfl, h.symm⟩
    | false =>
      simp only [recordFailure, hcounts, Bool.false_eq_true, if_false] at h
      exact .inl h
  · rw [lookup_recordFailure_ne hother] at h
    exact .inl h

theorem BootHealthState.Kept.apply (h : s.Kept) (t : Transition) : (t.apply s).Kept := by
  cases t with
  | recordStaged digest ring now => exact ⟨h.key, h.record, h.tally, h.failures⟩
  | noteRollbackAttempted digest error now => exact ⟨h.key, h.record, h.tally, h.failures⟩
  | markHealthy digest now =>
    exact
      { key := fun d record hrecord => h.key d record (lookup_of_erase hrecord)
        record := fun d record hrecord => h.record d record (lookup_of_erase hrecord)
        tally := fun d count hcount => h.tally d count (lookup_of_erase hcount)
        failures := le_rfl }
  | clearQuarantine digest now =>
    exact
      { key := fun d record hrecord => h.key d record (lookup_of_erase hrecord)
        record := fun d record hrecord => h.record d record (lookup_of_erase hrecord)
        tally := fun d count hcount => h.tally d count (lookup_of_erase hcount)
        failures := h.failures }
  | recordFailure digest bootId reason threshold now =>
    refine ⟨fun d record hrecord => ?_, fun d record hrecord => ?_, fun d count hcount => ?_, ?_⟩
    · obtain hold | ⟨rfl, -, rfl⟩ := lookup_quarantinedAfter hrecord
      · exact h.key d record hold
      · rfl
    · obtain hold | ⟨rfl, -, rfl⟩ := lookup_quarantinedAfter hrecord
      · exact h.record d record hold
      · exact h.digestFailures_nonneg d bootId
    · obtain hold | ⟨rfl, rfl⟩ := lookup_recordFailure hcount
      · exact h.tally d count hold
      · exact h.digestFailures_nonneg d bootId
    · have hfailures := h.failures
      show 0 ≤ (if s.currentDigest = digest then s.failures else 0) +
        if countsThisBoot s digest bootId then 1 else 0
      split_ifs <;> omega

theorem kept_stateAfter (run : List Transition) : (stateAfter run).Kept := by
  induction run using List.reverseRecOn with
  | nil => exact kept_default
  | append_singleton run t ih =>
    rw [stateAfter_concat]
    exact ih.apply t

/-- The counts are at most `n` and the times are `i64` values. -/
structure BootHealthState.Bounded (n : ℕ) (s : BootHealthState) : Prop where
  tally : ∀ digest count, s.failuresByDigest.lookup digest = some count → count ≤ n
  record : ∀ digest record, s.quarantined.lookup digest = some record →
    record.failures ≤ n ∧ InI64 record.firstFailedAt ∧ InI64 record.lastFailedAt
  failures : s.failures ≤ n
  lastRecoveryAt : InI64 s.lastRecoveryAt
  updatedAt : InI64 s.updatedAt
  lastRollbackAt : InI64 s.lastRollbackAt

variable {n : ℕ}

theorem bounded_default : ({} : BootHealthState).Bounded 0 where
  tally _ _ h := by cases h
  record _ _ h := by cases h
  failures := le_rfl
  lastRecoveryAt := by decide
  updatedAt := by decide
  lastRollbackAt := by decide

theorem BootHealthState.Bounded.mono {m : ℕ} (h : s.Bounded n) (hle : n ≤ m) : s.Bounded m where
  tally digest count hcount := (h.tally digest count hcount).trans (by exact_mod_cast hle)
  record digest record hrecord :=
    ⟨(h.record digest record hrecord).1.trans (by exact_mod_cast hle),
      (h.record digest record hrecord).2⟩
  failures := h.failures.trans (by exact_mod_cast hle)
  lastRecoveryAt := h.lastRecoveryAt
  updatedAt := h.updatedAt
  lastRollbackAt := h.lastRollbackAt

theorem BootHealthState.Bounded.digestFailures_le (h : s.Bounded n) (digest bootId : String) :
    digestFailures s digest bootId ≤ (n + 1 : ℕ) := by
  have htally : s.tally digest ≤ n := by
    unfold BootHealthState.tally
    cases hlookup : s.failuresByDigest.lookup digest with
    | none => simp
    | some count => exact h.tally digest count hlookup
  unfold digestFailures
  split_ifs <;> omega

theorem BootHealthState.Bounded.apply (h : s.Bounded n) {t : Transition} (hnow : InI64 t.now) :
    (t.apply s).Bounded (n + 1) := by
  have h' := h.mono n.le_succ
  have hzero : InI64 0 := by decide
  cases t with
  | recordStaged digest ring now => exact { h' with updatedAt := hnow }
  | noteRollbackAttempted digest error now =>
    exact { h' with updatedAt := hnow, lastRollbackAt := hnow }
  | markHealthy digest now =>
    refine { tally := ?_, record := ?_, failures := ?_, lastRecoveryAt := ?_, updatedAt := hnow,
             lastRollbackAt := h.lastRollbackAt }
    · exact fun d count hcount => h'.tally d count (lookup_of_erase hcount)
    · exact fun d record hrecord => h'.record d record (lookup_of_erase hrecord)
    · show (0 : ℤ) ≤ (n + 1 : ℕ)
      omega
    · show InI64 (if recoveredDigest s digest = "" then s.lastRecoveryAt else now)
      split_ifs
      · exact h.lastRecoveryAt
      · exact hnow
  | clearQuarantine digest now =>
    refine { tally := ?_, record := ?_, failures := h'.failures,
             lastRecoveryAt := h.lastRecoveryAt, updatedAt := hnow, lastRollbackAt := ?_ }
    · exact fun d count hcount => h'.tally d count (lookup_of_erase hcount)
    · exact fun d record hrecord => h'.record d record (lookup_of_erase hrecord)
    · show InI64 (if s.rollbackAttemptedFor = digest then 0 else s.lastRollbackAt)
      split_ifs
      · exact hzero
      · exact h.lastRollbackAt
  | recordFailure digest bootId reason threshold now =>
    refine { tally := ?_, record := ?_, failures := ?_, lastRecoveryAt := h.lastRecoveryAt,
             updatedAt := hnow, lastRollbackAt := h.lastRollbackAt }
    · intro d count hcount
      obtain hold | ⟨rfl, rfl⟩ := lookup_recordFailure hcount
      · exact h'.tally d count hold
      · exact h.digestFailures_le d bootId
    · intro d record hrecord
      obtain hold | ⟨rfl, -, rfl⟩ := lookup_quarantinedAfter hrecord
      · exact h'.record d record hold
      · refine ⟨h.digestFailures_le d bootId, ?_, hnow⟩
        unfold failureRecord
        dsimp only
        split
        · rename_i old hold
          exact (h.record d old hold).2.1
        · exact hnow
    · have hfailures := h.failures
      show (if s.currentDigest = digest then s.failures else 0) +
        (if countsThisBoot s digest bootId then 1 else 0) ≤ ((n + 1 : ℕ) : ℤ)
      split_ifs <;> omega

theorem bounded_stateAfter {run : List Transition} (h : ∀ t ∈ run, InI64 t.now) :
    (stateAfter run).Bounded run.length := by
  induction run using List.reverseRecOn with
  | nil => exact bounded_default
  | append_singleton run t ih =>
    rw [stateAfter_concat, List.length_append]
    exact (ih fun t' ht' => h t' (List.mem_append_left _ ht')).apply (h t (by simp))

/-- A run of fewer than `2 ^ 63` steps stays within `i64`. -/
theorem fits_stateAfter {run : List Transition} (h : ∀ t ∈ run, InI64 t.now)
    (hlength : run.length < 2 ^ 63) : (stateAfter run).Fits := by
  have hkept := kept_stateAfter run
  have hbounded := bounded_stateAfter h
  have hrange {m : ℤ} (hnonneg : 0 ≤ m) (hle : m ≤ run.length) : InI64 m :=
    ⟨by omega, by omega⟩
  exact
    { failures := hrange hkept.failures hbounded.failures
      lastRecoveryAt := hbounded.lastRecoveryAt
      updatedAt := hbounded.updatedAt
      lastRollbackAt := hbounded.lastRollbackAt
      tally := fun digest count hcount =>
        hrange (hkept.tally digest count hcount) (hbounded.tally digest count hcount)
      record := fun digest record hrecord =>
        { failures := hrange (hkept.record digest record hrecord)
            (hbounded.record digest record hrecord).1
          firstFailedAt := (hbounded.record digest record hrecord).2.1
          lastFailedAt := (hbounded.record digest record hrecord).2.2 } }

/-! ### Reading back -/

theorem decodeQuarantine_encodeRecord {digest : String} {record : QuarantineRecord}
    (hkey : record.digest = digest) (hfits : record.Fits) :
    decodeQuarantine digest (encodeRecord record) = some record := by
  have hdecode : decodeRecord
      [("digest", .string record.digest), ("failures", ofI64 record.failures),
        ("reason", .string record.reason), ("first_failed_at", ofI64 record.firstFailedAt),
        ("last_failed_at", ofI64 record.lastFailedAt)] = some record := by
    simp [decodeRecord, field, List.lookup_cons, Value.asStr, decodeI64_ofI64 hfits.failures,
      decodeI64_ofI64 hfits.firstFailedAt, decodeI64_ofI64 hfits.lastFailedAt]
  rw [encodeRecord, decodeQuarantine]
  simp only [hdecode, if_pos hkey]
  simp [recordKeys, List.lookup_cons]

theorem decodeQuarantined_encodeMap (hkept : s.Kept) (hfits : s.Fits) :
    decodeQuarantined (some (.object (encodeMap encodeRecord s.quarantined))) = s.quarantined := by
  rw [decodeQuarantined]
  refine collect_encodeMap _ fun digest record hrecord => ?_
  exact decodeQuarantine_encodeRecord (hkept.key digest record hrecord)
    (hfits.record digest record hrecord)

theorem retainTallies_of_kept (hkept : s.Kept) :
    retainTallies s.failuresByDigest = s.failuresByDigest := by
  refine collect_encodeMap _ fun digest count hcount => ?_
  exact if_pos (hkept.tally digest count hcount)

theorem decodeMap_tallies (hfits : s.Fits) :
    decodeMap decodeI64 (.object (encodeMap ofI64 s.failuresByDigest)) =
      some s.failuresByDigest :=
  decodeMap_encodeMap _ fun digest count hcount => decodeI64_ofI64 (hfits.tally digest count hcount)

/-- The fields of the document without the quarantine give back everything else. -/
theorem decodeState_encodeState (hfits : s.Fits) :
    decodeState ((encodeState s ++ [("schema_version", Value.nat 1)]).filter
      fun e => e.1 ≠ "quarantined") = some { s with quarantined := ∅ } := by
  simp [encodeState, decodeState, field, List.lookup_cons, Value.asStr, decodeMap_tallies hfits,
    decodeI64_ofI64 hfits.failures, decodeI64_ofI64 hfits.lastRecoveryAt,
    decodeI64_ofI64 hfits.updatedAt, decodeI64_ofI64 hfits.lastRollbackAt]

theorem document_eq (s : BootHealthState) :
    document s = .object (encodeState s ++ [("schema_version", Value.nat 1)]) := by
  simp [document, encodeState, Value.set, Value.setField]

theorem stateFromJson_document_of_kept (hkept : s.Kept) (hfits : s.Fits) :
    stateFromJson (some (document s)) = s := by
  have hversion : schemaVersion (encodeState s ++ [("schema_version", Value.nat 1)]) = 1 := by
    simp [schemaVersion, encodeState, List.lookup_cons, Value.nat, Number.asU64]
  have hquarantined : (encodeState s ++ [("schema_version", Value.nat 1)]).lookup "quarantined" =
      some (.object (encodeMap encodeRecord s.quarantined)) := by
    simp [encodeState, List.lookup_cons]
  rw [document_eq, stateFromJson, if_neg (not_not.2 hversion), decodeState_encodeState hfits,
    hquarantined, decodeQuarantined_encodeMap hkept hfits]
  simp only [retainTallies_of_kept hkept]

/-- A reachable state is read back from its document unchanged. -/
theorem decode_document (run : List Transition) (hfits : (stateAfter run).Fits) :
    stateFromJson (some (document (stateAfter run))) = stateAfter run :=
  stateFromJson_document_of_kept (kept_stateAfter run) hfits

/-- Three failed boots and a failed rollback. -/
def quarantinedRun : List Transition :=
  [.recordFailure "sha256:a" "boot-1" "display" 3 10, .recordFailure "sha256:a" "boot-2" "audio" 3 20,
    .recordFailure "sha256:a" "boot-3" "display" 3 30,
    .noteRollbackAttempted "sha256:a" (some "exit 1") 31]

theorem decode_document_quarantinedRun :
    stateFromJson (some (document (stateAfter quarantinedRun))) = stateAfter quarantinedRun :=
  decode_document quarantinedRun (fits_stateAfter (by decide) (by decide))

end Kyth.BootHealth
