import Kyth.BootHealth.Codec
import Kyth.Lib.Str

/-!
# The locked state file (`update_coordinator.rs`)

Every call of the coordinator is one transaction: it reads the state file, applies a transition and
writes the result, unless the result breaks the invariants of the state. The invariants compare
every quarantine record with the default threshold, whatever threshold the caller gave.
`every_call_persists_iff` says when no call is refused.
-/

namespace Kyth.BootHealth

open Json Serde

/-- The complaints about one quarantine record. -/
def recordErrors (digest : String) (record : QuarantineRecord) : List String :=
  (if record.failures < defaultFailureThreshold then
    ["quarantined " ++ digest ++ " failures " ++ toString record.failures ++ " < threshold"]
  else []) ++
  if digest ≠ record.digest then
    ["quarantined key " ++ digest ++ " != record.digest " ++ record.digest]
  else []

/-- `BootHealthState::invariants`. -/
def BootHealthState.invariants (s : BootHealthState) : List String :=
  (if s.failures < 0 then ["failures<0"] else []) ++
  (if s.status = "healthy" ∧ s.lastHealthyDigest = "" then
    ["healthy but last_healthy_digest empty"]
  else []) ++
  s.quarantined.entries.flatMap (fun e => recordErrors e.1 e.2) ++
  s.failuresByDigest.entries.flatMap fun e =>
    if e.2 < 0 then
      ["failures_by_digest " ++ e.1 ++ " invalid count " ++ toString e.2]
    else []

/-- `read_state`: a missing file is the empty state. -/
def readState (file : Option Value) : BootHealthState :=
  match file with
  | some contents => stateFromJson (some contents)
  | none => {}

/-- `transaction`, with the file it leaves behind. -/
def transaction (file : Option Value) (transform : BootHealthState → BootHealthState) :
    Except String BootHealthState × Option Value :=
  let updated := transform (readState file)
  if updated.invariants ≠ [] then
    (.error ("refusing to persist invalid boot-health state: [" ++
      String.intercalate ", " (updated.invariants.map Str.debug) ++ "]"), file)
  else (.ok updated, some (document updated))

/-- A call of the coordinator: `record_staged`, `record_failure`, `mark_healthy`,
`clear_quarantine` or `note_rollback_attempted`. -/
def call (file : Option Value) (t : Transition) : Except String BootHealthState × Option Value :=
  transaction file t.apply

/-- The state file after a sequence of calls, none of which finds one at the beginning. -/
def fileAfter (calls : List Transition) : Option Value :=
  calls.foldl (fun file t => (call file t).2) none

/-- The call succeeds and the next one reads what it returned. -/
def Persists (file : Option Value) (t : Transition) : Prop :=
  (call file t).1 = .ok (t.apply (readState file)) ∧
    readState (call file t).2 = t.apply (readState file)

/-- A report that quarantines a digest before it has the failures of the default threshold. -/
def Premature (s : BootHealthState) : Transition → Prop
  | .recordFailure digest bootId _ threshold _ =>
      threshold ≤ digestFailures s digest bootId ∧
        digestFailures s digest bootId < defaultFailureThreshold
  | _ => False

instance (s : BootHealthState) : DecidablePred (Premature s)
  | .recordFailure _ _ _ _ _ => inferInstanceAs (Decidable (_ ∧ _))
  | .recordStaged _ _ _ | .markHealthy _ _ | .noteRollbackAttempted _ _ _ | .clearQuarantine _ _ =>
      isFalse id

variable {s : BootHealthState} {t : Transition} {file : Option Value} {calls : List Transition}

@[simp] theorem fileAfter_nil : fileAfter [] = none := rfl

@[simp] theorem fileAfter_concat (calls : List Transition) (t : Transition) :
    fileAfter (calls ++ [t]) = (call (fileAfter calls) t).2 := by
  simp [fileAfter]

/-! ### The invariants -/

/-- What the invariants ask of a state. -/
structure Sound (s : BootHealthState) : Prop where
  failures : 0 ≤ s.failures
  healthy : s.status = "healthy" → s.lastHealthyDigest ≠ ""
  record : ∀ digest record, s.quarantined.lookup digest = some record →
    defaultFailureThreshold ≤ record.failures ∧ digest = record.digest
  tally : ∀ digest count, s.failuresByDigest.lookup digest = some count → 0 ≤ count

theorem recordErrors_eq_nil {digest : String} {record : QuarantineRecord} :
    recordErrors digest record = [] ↔
      defaultFailureThreshold ≤ record.failures ∧ digest = record.digest := by
  unfold recordErrors
  rw [List.append_eq_nil_iff]
  refine and_congr ?_ ?_
  · split_ifs with h
    · simp [h]
    · simp [not_lt.1 h]
  · split_ifs with h
    · simp [h]
    · simp [not_not.1 h]

/-- An entry of a map is a lookup in it. -/
theorem forall_entries_iff {α : Type} {m : DigestMap α} {P : String → α → Prop} :
    (∀ e ∈ m.entries, P e.1 e.2) ↔ ∀ digest a, m.lookup digest = some a → P digest a := by
  constructor
  · exact fun h digest a ha => h ⟨digest, a⟩ (AList.mem_lookup_iff.1 ha)
  · exact fun h e he => h e.1 e.2 (AList.mem_lookup_iff.2 he)

theorem invariants_eq_nil : s.invariants = [] ↔ Sound s := by
  have hfailures : ((if s.failures < 0 then ["failures<0"] else []) : List String) = [] ↔
      0 ≤ s.failures := by
    split_ifs with h
    · simp [h]
    · simp [not_lt.1 h]
  have hhealthy : ((if s.status = "healthy" ∧ s.lastHealthyDigest = "" then
      ["healthy but last_healthy_digest empty"] else []) : List String) = [] ↔
      (s.status = "healthy" → s.lastHealthyDigest ≠ "") := by
    split_ifs with h
    · simp [h]
    · simpa using h
  have htally : s.failuresByDigest.entries.flatMap (fun e =>
      if e.2 < 0 then ["failures_by_digest " ++ e.1 ++ " invalid count " ++ toString e.2]
      else []) = [] ↔ ∀ digest count, s.failuresByDigest.lookup digest = some count → 0 ≤ count := by
    rw [List.flatMap_eq_nil_iff, ← forall_entries_iff]
    refine forall₂_congr fun e _ => ?_
    split_ifs with h
    · simp [h]
    · simp [not_lt.1 h]
  have hrecord : s.quarantined.entries.flatMap (fun e => recordErrors e.1 e.2) = [] ↔
      ∀ digest record, s.quarantined.lookup digest = some record →
        defaultFailureThreshold ≤ record.failures ∧ digest = record.digest := by
    rw [List.flatMap_eq_nil_iff, ← forall_entries_iff]
    exact forall₂_congr fun e _ => recordErrors_eq_nil
  unfold BootHealthState.invariants
  rw [List.append_eq_nil_iff, List.append_eq_nil_iff, List.append_eq_nil_iff, hfailures, hhealthy,
    htally, hrecord]
  constructor
  · rintro ⟨⟨⟨hf, hh⟩, hr⟩, ht⟩
    exact ⟨hf, hh, hr, ht⟩
  · rintro ⟨hf, hh, hr, ht⟩
    exact ⟨⟨⟨hf, hh⟩, hr⟩, ht⟩

theorem sound_default : Sound {} :=
  invariants_eq_nil.1 (by decide)

/-- A transition breaks the invariants exactly when it quarantines a digest too early. -/
theorem sound_apply_iff (hsound : Sound s) (hkept : s.Kept) (hdigest : t.digest ≠ "") :
    Sound (t.apply s) ↔ ¬ Premature s t := by
  have hkept' := hkept.apply t
  -- all but the records of the new state is in order
  have hrest (hhealthy : (t.apply s).status = "healthy" → (t.apply s).lastHealthyDigest ≠ "")
      (hrecord : ∀ digest record, (t.apply s).quarantined.lookup digest = some record →
        defaultFailureThreshold ≤ record.failures) : Sound (t.apply s) :=
    { failures := hkept'.failures
      healthy := hhealthy
      record := fun digest record h => ⟨hrecord digest record h, (hkept'.key digest record h).symm⟩
      tally := hkept'.tally }
  cases t with
  | recordStaged digest ring now =>
    refine iff_of_true (hrest hsound.healthy fun d record h => ?_) id
    exact (hsound.record d record h).1
  | noteRollbackAttempted digest error now =>
    refine iff_of_true (hrest hsound.healthy fun d record h => ?_) id
    exact (hsound.record d record h).1
  | markHealthy digest now =>
    refine iff_of_true (hrest (fun _ => hdigest) fun d record h => ?_) id
    exact (hsound.record d record (lookup_of_erase h)).1
  | clearQuarantine digest now =>
    refine iff_of_true (hrest ?_ fun d record h => ?_) id
    · show (if s.currentDigest = digest ∧ s.status = "quarantined" then "unhealthy" else s.status) =
        "healthy" → s.lastHealthyDigest ≠ ""
      split_ifs
      · intro h
        simp at h
      · exact hsound.healthy
    · exact (hsound.record d record (lookup_of_erase h)).1
  | recordFailure digest bootId reason threshold now =>
    constructor
    · rintro hnew ⟨hreached, hearly⟩
      have hlookup : (quarantinedAfter s digest bootId reason threshold now).lookup digest =
          some (failureRecord s digest bootId reason now) := by
        rw [quarantinedAfter, if_pos hreached, AList.lookup_insert]
      exact absurd hearly (not_lt.2 (hnew.record digest _ hlookup).1)
    · intro hmature
      refine hrest ?_ fun d record h => ?_
      · show (if digest ∈ quarantinedAfter s digest bootId reason threshold now then "quarantined"
          else "unhealthy") = "healthy" → s.lastHealthyDigest ≠ ""
        split_ifs <;> simp
      · obtain hold | ⟨rfl, hreached, rfl⟩ := lookup_quarantinedAfter h
        · exact (hsound.record d record hold).1
        · exact not_lt.1 fun hearly => hmature ⟨hreached, hearly⟩

/-! ### Sequences of calls -/

theorem call_of_sound (h : Sound (t.apply (readState file))) :
    call file t = (.ok (t.apply (readState file)), some (document (t.apply (readState file)))) := by
  rw [call, transaction]
  exact if_neg (not_not.2 (invariants_eq_nil.2 h))

theorem sound_of_call {updated : BootHealthState} (h : (call file t).1 = .ok updated) :
    Sound (t.apply (readState file)) := by
  rw [call, transaction] at h
  split_ifs at h with hbroken
  exact invariants_eq_nil.1 (not_not.1 hbroken)

/-- A call on the file of a run either breaks the invariants or moves the file along. -/
theorem persists_of_sound {run : List Transition} (hread : readState file = stateAfter run)
    (hsound : Sound (t.apply (stateAfter run))) (hfits : (stateAfter (run ++ [t])).Fits) :
    Persists file t ∧ readState (call file t).2 = stateAfter (run ++ [t]) := by
  have hcall := call_of_sound (hread ▸ hsound)
  have hwritten : readState (some (document (t.apply (readState file)))) =
      t.apply (readState file) := by
    rw [hread, ← stateAfter_concat]
    exact stateFromJson_document_of_kept (kept_stateAfter _) hfits
  refine ⟨⟨by rw [hcall], by rw [hcall, hwritten]⟩, ?_⟩
  rw [hcall, hwritten, hread, stateAfter_concat]

/-- As long as every transition keeps the invariants, the file holds the state of the run. -/
theorem file_follows (hclock : ∀ t ∈ calls, InI64 t.now) (hlength : calls.length < 2 ^ 63)
    (h : ∀ earlier t later, calls = earlier ++ t :: later →
      readState (fileAfter earlier) = stateAfter earlier → Sound (stateAfter earlier) →
        Sound (t.apply (stateAfter earlier))) :
    readState (fileAfter calls) = stateAfter calls ∧ Sound (stateAfter calls) := by
  induction calls using List.reverseRecOn with
  | nil => exact ⟨rfl, sound_default⟩
  | append_singleton calls t ih =>
    obtain ⟨hread, hsound⟩ := ih (fun t' ht' => hclock t' (List.mem_append_left _ ht'))
      (lt_of_le_of_lt (by simp) hlength)
      fun earlier t' later hcalls => h earlier t' (later ++ [t]) (by rw [hcalls]; simp)
    have hnext := h calls t [] rfl hread hsound
    rw [fileAfter_concat]
    refine ⟨(persists_of_sound hread hnext (fits_stateAfter hclock hlength)).2, ?_⟩
    rw [stateAfter_concat]
    exact hnext

/-- Every call is persisted exactly when no report quarantines its digest before the default
threshold. -/
theorem every_call_persists_iff (hdigest : ∀ t ∈ calls, t.digest ≠ "")
    (hclock : ∀ t ∈ calls, InI64 t.now) (hlength : calls.length < 2 ^ 63) :
    (∀ earlier t later, calls = earlier ++ t :: later → Persists (fileAfter earlier) t) ↔
      ∀ earlier t later, calls = earlier ++ t :: later →
        ¬ Premature (readState (fileAfter earlier)) t := by
  -- what holds of all calls holds of the calls before one of them
  have hbefore {earlier later : List Transition} {t : Transition}
      (hcalls : calls = earlier ++ t :: later) :
      (∀ t' ∈ earlier, InI64 t'.now) ∧ earlier.length < 2 ^ 63 ∧ t.digest ≠ "" := by
    refine ⟨fun t' ht' => hclock t' (by simp [hcalls, ht']), ?_, hdigest t (by simp [hcalls])⟩
    rw [hcalls, List.length_append] at hlength
    omega
  constructor
  · intro hpersists earlier t later hcalls
    obtain ⟨hclock', hlength', hdigest'⟩ := hbefore hcalls
    obtain ⟨hread, hsound⟩ := file_follows hclock' hlength' fun earlier' t' later' hearlier hread' _ => by
      rw [← hread']
      refine sound_of_call (hpersists earlier' t' (later' ++ t :: later) ?_).1
      rw [hcalls, hearlier]
      simp
    rw [hread]
    refine (sound_apply_iff hsound (kept_stateAfter earlier) hdigest').1 ?_
    rw [← hread]
    exact sound_of_call (hpersists earlier t later hcalls).1
  · intro hmature earlier t later hcalls
    obtain ⟨hclock', hlength', hdigest'⟩ := hbefore hcalls
    obtain ⟨hread, hsound⟩ := file_follows hclock' hlength' fun earlier' t' later' hearlier hread' hs => by
      have hcalls' : calls = earlier' ++ t' :: (later' ++ t :: later) := by
        rw [hcalls, hearlier]
        simp
      refine (sound_apply_iff hs (kept_stateAfter earlier') (hbefore hcalls').2.2).2 ?_
      rw [← hread']
      exact hmature earlier' t' _ hcalls'
    have hsound' : Sound (t.apply (stateAfter earlier)) := by
      refine (sound_apply_iff hsound (kept_stateAfter earlier) hdigest').2 ?_
      rw [← hread]
      exact hmature earlier t later hcalls
    refine (persists_of_sound hread hsound' (fits_stateAfter ?_ ?_)).1
    · intro t' ht'
      refine hclock t' ?_
      rw [hcalls]
      obtain ht' | ht' := List.mem_append.1 ht' <;> simp_all
    · rw [hcalls, List.length_append, List.length_cons] at hlength
      rw [List.length_append, List.length_singleton]
      omega

theorem every_call_persists_first :
    Persists none (.recordFailure "sha256:a" "boot-1" "display" defaultFailureThreshold 10) := by
  have hiff := every_call_persists_iff
    (show ∀ t ∈ [Transition.recordFailure "sha256:a" "boot-1" "display" defaultFailureThreshold 10],
      t.digest ≠ "" by decide) (by decide) (by decide)
  refine hiff.2 (fun earlier t later hcalls => ?_) [] _ [] rfl
  obtain ⟨rfl, rfl, rfl⟩ := List.append_eq_singleton_iff.1 hcalls.symm |>.resolve_right (by simp)
    |>.imp_right List.cons.inj
  decide

/-- The command line admits a threshold of one, and then the first failed boot is not persisted. -/
theorem early_report_refused :
    ¬ Persists none (.recordFailure "sha256:a" "boot-1" "display" 1 10) ∧
      (call none (.recordFailure "sha256:a" "boot-1" "display" 1 10)).2 = none := by
  have hrefused : ¬ Sound (Transition.apply (readState none)
      (.recordFailure "sha256:a" "boot-1" "display" 1 10)) := by
    rw [← invariants_eq_nil]
    decide
  refine ⟨fun hpersists => hrefused (sound_of_call hpersists.1), ?_⟩
  rw [call, transaction, if_pos fun hnone => hrefused (invariants_eq_nil.1 hnone)]

end Kyth.BootHealth
