import Kyth.BootHealth.State

/-!
# Rollback attempts over a run

`kyth-boot-health record-failure` reads the state, records the failure, and attempts a rollback when
`rollback_retry_due` says so; the outcome is noted in the one rollback slot of the state. `Event`
is what reaches the state file and `handledAfter` the state after a run of events.

`requarantine_asks` says when every new quarantine asks for a rollback, and
`rolled_back_once` that a digest is not rolled back twice.
-/

namespace Kyth.BootHealth

/-- What happens to the state file. The outcome of a failure is that of the rollback, should one be
attempted. -/
inductive Event
  | staged (digest rolloutRing : String) (now : ℤ)
  | failure (digest bootId reason : String) (threshold now : ℤ) (outcome : Option String)
      (notedAt : ℤ)
  | healthy (digest : String) (now : ℤ)
  | clear (digest : String) (now : ℤ)
  deriving DecidableEq

namespace Event

/-- The event asks for a rollback of the digest. -/
def Asks (s : BootHealthState) (digest : String) : Event → Prop
  | failure d bootId reason threshold now _ _ =>
      d = digest ∧ rollbackRetryDue s (recordFailure s d bootId reason threshold now) d = true
  | _ => False

instance (s : BootHealthState) (digest : String) : DecidablePred (Asks s digest)
  | failure _ _ _ _ _ _ _ => inferInstanceAs (Decidable (_ ∧ _))
  | staged _ _ _ | healthy _ _ | clear _ _ => isFalse id

/-- The state after an event. -/
def handle (s : BootHealthState) : Event → BootHealthState
  | staged digest rolloutRing now => recordStaged s digest rolloutRing now
  | failure digest bootId reason threshold now outcome notedAt =>
      let updated := recordFailure s digest bootId reason threshold now
      if rollbackRetryDue s updated digest then
        noteRollbackAttempted updated digest outcome notedAt
      else updated
  | healthy digest now => markHealthy s digest now
  | clear digest now => clearQuarantine s digest now

/-- The event takes the digest from not quarantined to quarantined. -/
def Quarantines (s : BootHealthState) (digest : String) (event : Event) : Prop :=
  digest ∉ s.quarantined ∧ digest ∈ (event.handle s).quarantined

instance (s : BootHealthState) (digest : String) : DecidablePred (Quarantines s digest) :=
  fun _ => inferInstanceAs (Decidable (_ ∧ _))

/-- A rollback that the event attempts succeeds. -/
def Succeeds : Event → Prop
  | failure _ _ _ _ _ outcome _ => outcome = none
  | _ => False

/-- The event is a report of a failed boot. -/
def Reports (digest bootId : String) : Event → Prop
  | failure d b _ _ _ _ _ => d = digest ∧ b = bootId
  | _ => False

/-- The event takes the boot off the record: another boot reports, or a deployment is marked
healthy. -/
def Displaces (digest bootId : String) : Event → Prop
  | failure d b _ _ _ _ _ => ¬ (d = digest ∧ b = bootId)
  | healthy _ _ => True
  | _ => False

/-- The thresholds that the command line admits. -/
def Admitted : Event → Prop
  | failure _ _ _ threshold _ _ _ => 1 ≤ threshold
  | _ => True

/-- The digest of a report is not empty, and a digest is not marked healthy while the rollback slot
holds its success. -/
def KeepsSlot (s : BootHealthState) : Event → Prop
  | failure digest _ _ _ _ _ _ => digest ≠ ""
  | healthy digest _ => ¬ s.RolledBack digest
  | _ => True

end Event

/-- The state after a run of events. -/
def handledAfter (events : List Event) : BootHealthState := events.foldl Event.handle {}

@[simp] theorem handledAfter_nil : handledAfter [] = {} := rfl

@[simp] theorem handledAfter_concat (events : List Event) (event : Event) :
    handledAfter (events ++ [event]) = event.handle (handledAfter events) := by
  simp [handledAfter]

variable {s : BootHealthState} {digest other bootId reason : String} {threshold now : ℤ}
  {event : Event} {events earlier between later : List Event}

namespace Event

theorem handle_failure_of_due {outcome : Option String} {notedAt : ℤ}
    (h : rollbackRetryDue s (recordFailure s digest bootId reason threshold now) digest = true) :
    handle s (failure digest bootId reason threshold now outcome notedAt) =
      noteRollbackAttempted (recordFailure s digest bootId reason threshold now) digest outcome
        notedAt := if_pos h

theorem handle_failure_of_not_due {outcome : Option String} {notedAt : ℤ}
    (h : ¬ rollbackRetryDue s (recordFailure s digest bootId reason threshold now) digest = true) :
    handle s (failure digest bootId reason threshold now outcome notedAt) =
      recordFailure s digest bootId reason threshold now := if_neg h

/-- Noting an attempt changes neither quarantines nor tallies. -/
@[simp] theorem handle_failure_quarantined (outcome : Option String) (notedAt : ℤ) :
    (handle s (failure digest bootId reason threshold now outcome notedAt)).quarantined =
      quarantinedAfter s digest bootId reason threshold now := by
  rw [handle]
  split_ifs <;> rfl

/-- Only a report of the digest itself quarantines it. -/
theorem Quarantines.report (h : event.Quarantines s digest) :
    ∃ bootId reason threshold now outcome notedAt,
      event = failure digest bootId reason threshold now outcome notedAt := by
  obtain ⟨hnot, hmem⟩ := h
  cases event with
  | staged d ring now => exact absurd hmem hnot
  | healthy d now => exact absurd (AList.mem_erase.1 hmem).2 hnot
  | clear d now => exact absurd (AList.mem_erase.1 hmem).2 hnot
  | failure d bootId reason threshold now outcome notedAt =>
    rw [handle_failure_quarantined] at hmem
    by_cases hd : digest = d
    · subst hd
      exact ⟨bootId, reason, threshold, now, outcome, notedAt, rfl⟩
    · exact absurd ((mem_quarantinedAfter_ne hd).1 hmem) hnot

end Event

/-! ### Every new quarantine asks for a rollback -/

/-- A digest whose rollback succeeded is still quarantined. -/
def SlotHeld (s : BootHealthState) : Prop :=
  ∀ digest, digest ≠ "" → s.RolledBack digest → digest ∈ s.quarantined

theorem SlotHeld.handle (h : SlotHeld s) (hkeeps : event.KeepsSlot s) :
    SlotHeld (event.handle s) := by
  intro d hd hrolled
  cases event with
  | staged digest ring now => exact h d hd hrolled
  | failure digest bootId reason threshold now outcome notedAt =>
    rw [Event.handle_failure_quarantined]
    by_cases hdue : rollbackRetryDue s
        (recordFailure s digest bootId reason threshold now) digest = true
    · rw [Event.handle_failure_of_due hdue] at hrolled
      obtain rfl : digest = d := hrolled.1
      exact mem_of_rollbackRetryDue hdue
    · rw [Event.handle_failure_of_not_due hdue] at hrolled
      exact mem_quarantinedAfter_of_mem (h d hd hrolled)
  | healthy digest now =>
    have hne : d ≠ digest := by
      rintro rfl
      exact hkeeps hrolled
    exact AList.mem_erase.2 ⟨hne, h d hd hrolled⟩
  | clear digest now =>
    -- the slot of a cleared digest is emptied, any other slot is kept
    obtain ⟨hslot, herror⟩ := hrolled
    by_cases hmine : s.rollbackAttemptedFor = digest
    · refine absurd ?_ hd
      rw [← hslot, Event.handle, clearQuarantine_rollbackAttemptedFor, if_pos hmine]
    · rw [Event.handle, clearQuarantine_rollbackAttemptedFor, if_neg hmine] at hslot
      rw [Event.handle, clearQuarantine_lastRollbackError, if_neg hmine] at herror
      subst hslot
      exact AList.mem_erase.2 ⟨hmine, h _ hd ⟨rfl, herror⟩⟩

theorem slotHeld_handledAfter
    (h : ∀ earlier event later, events = earlier ++ event :: later →
      event.KeepsSlot (handledAfter earlier)) : SlotHeld (handledAfter events) := by
  induction events using List.reverseRecOn with
  | nil =>
    intro digest hdigest hrolled
    exact absurd hrolled.1.symm hdigest
  | append_singleton events event ih =>
    rw [handledAfter_concat]
    refine SlotHeld.handle (ih ?_) (h events event [] rfl)
    intro earlier event' later hevents
    exact h earlier event' (later ++ [event]) (by rw [hevents]; simp)

/-- Every new quarantine asks for a rollback, in every run that marks no digest healthy while the
slot holds its success. -/
theorem requarantine_asks
    (h : ∀ earlier event later, events = earlier ++ event :: later →
      event.KeepsSlot (handledAfter earlier))
    (hevents : events = earlier ++ event :: later)
    (hquarantines : event.Quarantines (handledAfter earlier) digest) :
    event.Asks (handledAfter earlier) digest := by
  have hheld : SlotHeld (handledAfter earlier) := by
    refine slotHeld_handledAfter fun earlier' event' later' hearlier => ?_
    exact h earlier' event' (later' ++ event :: later) (by rw [hevents, hearlier]; simp)
  have hkeeps := h earlier event later hevents
  obtain ⟨bootId, reason, threshold, now, outcome, notedAt, rfl⟩ := hquarantines.report
  obtain ⟨hnot, hmem⟩ := hquarantines
  rw [Event.handle_failure_quarantined] at hmem
  refine ⟨rfl, (rollbackRetryDue_of_not_mem hnot).2 ⟨hmem, fun hrolled => ?_⟩⟩
  exact hnot (hheld digest hkeeps hrolled)

/-- A report with the default threshold. -/
def report (digest bootId : String) (now : ℤ) (outcome : Option String) : Event :=
  .failure digest bootId "display" defaultFailureThreshold now outcome now

/-- Three failed boots, the last of which asks for a rollback. -/
def threeBoots (outcome : Option String) : List Event :=
  [report "sha256:a" "boot-1" 1 none, report "sha256:a" "boot-2" 2 none,
    report "sha256:a" "boot-3" 3 outcome]

theorem requarantine_asks_threeBoots :
    (report "sha256:a" "boot-3" 3 none).Asks (handledAfter ((threeBoots none).take 2))
      "sha256:a" := by
  have hkeeps : ∀ earlier event later, threeBoots none = earlier ++ event :: later →
      event.KeepsSlot (handledAfter earlier) := by
    intro earlier event later hevents
    have hmem : event ∈ threeBoots none := by simp [hevents]
    simp only [threeBoots, report, List.mem_cons, List.not_mem_nil, or_false] at hmem
    obtain rfl | rfl | rfl := hmem <;> exact (by decide : "sha256:a" ≠ "")
  have hevents : threeBoots none =
      (threeBoots none).take 2 ++ report "sha256:a" "boot-3" 3 none :: [] := rfl
  exact requarantine_asks hkeeps hevents (by decide)

/-- After a successful rollback and a healthy boot, the next quarantine of the digest asks for no
rollback. -/
theorem healthy_keeps_slot :
    (report "sha256:a" "boot-6" 6 none).Quarantines
        (handledAfter (threeBoots none ++ [.healthy "sha256:a" 4, report "sha256:a" "boot-4" 4 none,
          report "sha256:a" "boot-5" 5 none])) "sha256:a" ∧
      ¬ (report "sha256:a" "boot-6" 6 none).Asks
        (handledAfter (threeBoots none ++ [.healthy "sha256:a" 4, report "sha256:a" "boot-4" 4 none,
          report "sha256:a" "boot-5" 5 none])) "sha256:a" := by
  decide

/-! ### No rollback is asked for twice -/

/-- The slot holds no failed attempt of the digest. -/
def NoFailedAttempt (digest : String) (s : BootHealthState) : Prop :=
  s.rollbackAttemptedFor = digest → s.lastRollbackError = ""

/-- While the digest stays quarantined and none of its attempts is on record as failed, no rollback
of it is asked for. -/
theorem not_asks_of_mem (h : NoFailedAttempt digest s) (hmem : digest ∈ s.quarantined) :
    ¬ event.Asks s digest := by
  intro hasks
  cases event with
  | staged d ring now => exact hasks
  | healthy d now => exact hasks
  | clear d now => exact hasks
  | failure d bootId reason threshold now outcome notedAt =>
    obtain ⟨rfl, hdue⟩ := hasks
    obtain ⟨-, hslot, herror, -⟩ := (rollbackRetryDue_of_mem hmem).1 hdue
    exact herror (h hslot)

theorem NoFailedAttempt.handle (h : NoFailedAttempt digest s) (hmem : digest ∈ s.quarantined) :
    NoFailedAttempt digest (event.handle s) := by
  cases event with
  | staged d ring now => exact h
  | healthy d now => exact h
  | failure d bootId reason threshold now outcome notedAt =>
    by_cases hdue : rollbackRetryDue s (recordFailure s d bootId reason threshold now) d = true
    · rw [Event.handle_failure_of_due hdue]
      intro hslot
      have hnot : ¬ (Event.failure d bootId reason threshold now outcome notedAt).Asks s digest :=
        not_asks_of_mem h hmem
      exact absurd ⟨hslot, hdue⟩ hnot
    · rw [Event.handle_failure_of_not_due hdue]
      exact h
  | clear d now =>
    intro hslot
    rw [Event.handle, clearQuarantine_lastRollbackError]
    split_ifs with hmine
    · rfl
    · rw [Event.handle, clearQuarantine_rollbackAttemptedFor, if_neg hmine] at hslot
      exact h hslot

/-- A successful rollback leaves no failed attempt of its digest on record. -/
theorem noFailedAttempt_of_succeeds (hasks : event.Asks s digest) (hsucceeds : event.Succeeds) :
    NoFailedAttempt digest (event.handle s) := by
  cases event with
  | staged d ring now => exact hasks.elim
  | healthy d now => exact hasks.elim
  | clear d now => exact hasks.elim
  | failure d bootId reason threshold now outcome notedAt =>
    obtain ⟨rfl, hdue⟩ := hasks
    obtain rfl : outcome = none := hsucceeds
    rw [Event.handle_failure_of_due hdue]
    exact fun _ => rfl

theorem noFailedAttempt_between (hasks : event.Asks (handledAfter earlier) digest)
    (hsucceeds : event.Succeeds)
    (hstays : ∀ done rest, between = done ++ rest →
      digest ∈ (handledAfter (earlier ++ event :: done)).quarantined) :
    NoFailedAttempt digest (handledAfter (earlier ++ event :: between)) := by
  induction between using List.reverseRecOn with
  | nil =>
    rw [handledAfter_concat]
    exact noFailedAttempt_of_succeeds hasks hsucceeds
  | append_singleton between step ih =>
    rw [← List.cons_append, ← List.append_assoc, handledAfter_concat]
    refine NoFailedAttempt.handle (ih ?_) (hstays between [step] rfl)
    intro done rest hbetween
    exact hstays done (rest ++ [step]) (by rw [hbetween, List.append_assoc])

/-- The boot is on record for the digest, and the digest is quarantined or has no tally. -/
structure OnRecord (digest bootId : String) (s : BootHealthState) : Prop where
  current : s.currentDigest = digest
  boot : s.lastFailureBootId = bootId
  settled : digest ∈ s.quarantined ∨ s.failuresByDigest.lookup digest = none

theorem OnRecord.repeated (h : OnRecord digest bootId s) :
    countsThisBoot s digest bootId = false :=
  countsThisBoot_eq_false.2 ⟨h.current, h.boot⟩

/-- A repeated report of the boot on record changes no tally. -/
theorem OnRecord.tally_eq (h : OnRecord digest bootId s) :
    (recordFailure s digest bootId reason threshold now).tally digest = s.tally digest := by
  rw [tally_recordFailure_self, digestFailures_of_repeated h.repeated]

/-- A repeated report of the boot on record quarantines nothing new. -/
theorem OnRecord.mem_iff (h : OnRecord digest bootId s) (hthreshold : 1 ≤ threshold) :
    digest ∈ quarantinedAfter s digest bootId reason threshold now ↔ digest ∈ s.quarantined := by
  rw [mem_quarantinedAfter_self, digestFailures_of_repeated h.repeated]
  obtain hmem | hnone := h.settled
  · simp [hmem]
  · have hzero : s.tally digest = 0 := by simp [BootHealthState.tally, hnone]
    rw [hzero, or_iff_right]
    omega

theorem OnRecord.not_due (h : OnRecord digest bootId s) (hthreshold : 1 ≤ threshold) :
    ¬ rollbackRetryDue s (recordFailure s digest bootId reason threshold now) digest = true := by
  intro hdue
  have hmem : digest ∈ s.quarantined := (h.mem_iff hthreshold).1 (mem_of_rollbackRetryDue hdue)
  obtain ⟨-, -, -, hmore⟩ := (rollbackRetryDue_of_mem hmem).1 hdue
  rw [h.tally_eq] at hmore
  exact lt_irrefl _ hmore

theorem OnRecord.handle (h : OnRecord digest bootId s) (hquiet : ¬ event.Displaces digest bootId)
    (hadmitted : event.Admitted) : OnRecord digest bootId (event.handle s) := by
  cases event with
  | staged d ring now => exact ⟨h.current, h.boot, h.settled⟩
  | healthy d now => exact absurd trivial hquiet
  | failure d b reason threshold now outcome notedAt =>
    obtain ⟨rfl, rfl⟩ := not_not.1 hquiet
    rw [Event.handle_failure_of_not_due (h.not_due hadmitted)]
    refine ⟨rfl, rfl, ?_⟩
    rw [recordFailure_quarantined, h.mem_iff hadmitted]
    refine h.settled.imp id fun hnone => ?_
    simp only [recordFailure, h.repeated, Bool.false_eq_true, if_false]
    exact hnone
  | clear d now =>
    refine ⟨h.current, h.boot, ?_⟩
    by_cases hd : digest = d
    · subst hd
      exact .inr (AList.lookup_erase _ _)
    · refine h.settled.imp (fun hmem => AList.mem_erase.2 ⟨hd, hmem⟩) fun hnone => ?_
      exact (AList.lookup_erase_ne hd).trans hnone

/-- A report that asks for a rollback leaves its boot on record. -/
theorem onRecord_of_asks (hasks : event.Asks s digest) (hreports : event.Reports digest bootId) :
    OnRecord digest bootId (event.handle s) := by
  cases event with
  | staged d ring now => exact hasks.elim
  | healthy d now => exact hasks.elim
  | clear d now => exact hasks.elim
  | failure d b reason threshold now outcome notedAt =>
    obtain ⟨rfl, rfl⟩ := hreports
    rw [Event.handle_failure_of_due hasks.2]
    have hmem := mem_of_rollbackRetryDue hasks.2
    exact ⟨rfl, rfl, .inl hmem⟩

theorem onRecord_between (hasks : event.Asks (handledAfter earlier) digest)
    (hreports : event.Reports digest bootId)
    (hquiet : ∀ step ∈ between, ¬ step.Displaces digest bootId)
    (hadmitted : ∀ step ∈ between, step.Admitted) :
    OnRecord digest bootId (handledAfter (earlier ++ event :: between)) := by
  induction between using List.reverseRecOn with
  | nil =>
    rw [handledAfter_concat]
    exact onRecord_of_asks hasks hreports
  | append_singleton between step ih =>
    rw [← List.cons_append, ← List.append_assoc, handledAfter_concat]
    refine OnRecord.handle (ih ?_ ?_) (hquiet step (by simp)) (hadmitted step (by simp))
    · exact fun step' hstep' => hquiet step' (List.mem_append_left _ hstep')
    · exact fun step' hstep' => hadmitted step' (List.mem_append_left _ hstep')

theorem OnRecord.not_asks (h : OnRecord digest bootId s) (hreports : event.Reports digest bootId)
    (hadmitted : event.Admitted) : ¬ event.Asks s digest := by
  cases event with
  | staged d ring now => exact id
  | healthy d now => exact id
  | clear d now => exact id
  | failure d b reason threshold now outcome notedAt =>
    obtain ⟨rfl, rfl⟩ := hreports
    exact fun hasks => h.not_due hadmitted hasks.2

/-- After a successful rollback of a digest no other one is asked for as long as the digest stays
quarantined. The reports of one boot ask for at most one rollback while the boot stays on record. -/
theorem rolled_back_once {next : Event}
    (hevents : events = earlier ++ event :: between ++ next :: later)
    (hasks : event.Asks (handledAfter earlier) digest) :
    (event.Succeeds →
      (∀ done rest, between = done ++ rest →
        digest ∈ (handledAfter (earlier ++ event :: done)).quarantined) →
      ¬ next.Asks (handledAfter (earlier ++ event :: between)) digest) ∧
    (∀ bootId, event.Reports digest bootId → next.Reports digest bootId →
      (∀ step ∈ between, ¬ step.Displaces digest bootId) → (∀ step ∈ events, step.Admitted) →
      ¬ next.Asks (handledAfter (earlier ++ event :: between)) digest) := by
  constructor
  · intro hsucceeds hstays
    refine not_asks_of_mem (noFailedAttempt_between hasks hsucceeds hstays) ?_
    exact hstays between [] (List.append_nil _).symm
  · intro bootId hreports hreports' hquiet hadmitted
    have hrecord : OnRecord digest bootId (handledAfter (earlier ++ event :: between)) := by
      refine onRecord_between hasks hreports hquiet fun step hstep => hadmitted step ?_
      rw [hevents]
      simp [hstep]
    refine hrecord.not_asks hreports' (hadmitted next ?_)
    rw [hevents]
    simp

theorem rolled_back_once_threeBoots :
    (report "sha256:a" "boot-3" 3 none).Asks (handledAfter ((threeBoots none).take 2)) "sha256:a" ∧
      ¬ (report "sha256:a" "boot-4" 4 none).Asks (handledAfter (threeBoots none)) "sha256:a" := by
  have hasks : (report "sha256:a" "boot-3" 3 none).Asks (handledAfter ((threeBoots none).take 2))
      "sha256:a" := by decide
  have hevents : threeBoots none ++ [report "sha256:a" "boot-4" 4 none] =
      (threeBoots none).take 2 ++ report "sha256:a" "boot-3" 3 none :: [] ++
        report "sha256:a" "boot-4" 4 none :: [] := rfl
  refine ⟨hasks, (rolled_back_once hevents hasks).1 rfl fun done rest hdone => ?_⟩
  obtain rfl := (List.append_eq_nil_iff.1 hdone.symm).1
  decide

/-- A boot of another digest takes `boot-3` off the record, so that its next report asks for a
second rollback. -/
theorem boot_asks_twice :
    (report "sha256:a" "boot-3" 3 (some "exit 1")).Asks
        (handledAfter ((threeBoots (some "exit 1")).take 2)) "sha256:a" ∧
      (report "sha256:a" "boot-3" 5 none).Asks
        (handledAfter (threeBoots (some "exit 1") ++ [report "sha256:b" "boot-4" 4 none]))
        "sha256:a" := by
  decide

end Kyth.BootHealth
