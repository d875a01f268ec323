import Kyth.BootHealth.State

/-!
# The tallies of a run

`failedBoots` reads off a run which boots reported a failure of a digest since the digest was last
forgiven. `tally_counts_boots` says that the state counts exactly these boots, whatever the other
digests do. The state remembers one boot only, so the reports of a boot must not be interrupted.
-/

namespace Kyth.BootHealth

/-- The boots that reported a failure of a digest since it was last forgiven. -/
def recordBoot (digest : String) (boots : List String) : Transition → List String
  | .recordFailure d bootId _ _ _ => if d = digest then bootId :: boots else boots
  | .markHealthy d _ | .clearQuarantine d _ => if d = digest then [] else boots
  | _ => boots

/-- The boots that reported a failure of a digest since the last `mark_healthy` or
`clear_quarantine` of the digest. -/
def failedBoots (digest : String) (run : List Transition) : List String :=
  run.foldl (recordBoot digest) []

/-- The number of distinct boots among them. -/
def bootCount (digest : String) (run : List Transition) : ℕ :=
  (failedBoots digest run).toFinset.card

/-- A step that interrupts the reports of a boot: a report of another boot, a clear of the digest,
or a deployment that is marked healthy. For the same digest that forgives it. For another digest it
is a step of another boot, because only the running deployment is marked healthy. -/
def Transition.Interrupts (digest bootId : String) : Transition → Prop
  | .recordFailure _ b _ _ _ => b ≠ bootId
  | .markHealthy _ _ => True
  | .clearQuarantine d _ => d = digest
  | _ => False

/-- The step reports a failed boot of a digest. -/
def Transition.Reports (digest bootId : String) : Transition → Prop
  | .recordFailure d b _ _ _ => d = digest ∧ b = bootId
  | _ => False

/-- A run with one threshold whose boots each report on one digest, without interruption. -/
structure IsBootRun (threshold : ℤ) (run : List Transition) : Prop where
  threshold_eq : ∀ digest bootId reason t now,
    .recordFailure digest bootId reason t now ∈ run → t = threshold
  boot_ne : ∀ step ∈ run, ∀ digest bootId, step.Reports digest bootId → bootId ≠ ""
  one_digest : ∀ first ∈ run, ∀ second ∈ run, ∀ digest other bootId,
    first.Reports digest bootId → second.Reports other bootId → digest = other
  contiguous : ∀ earlier first between second later digest bootId,
    run = earlier ++ first :: between ++ second :: later → first.Reports digest bootId →
      second.Reports digest bootId → ∀ step ∈ between, ¬ step.Interrupts digest bootId

variable {run earlier between : List Transition} {digest other bootId reason : String}
  {threshold t now : ℤ} {step : Transition}

@[simp] theorem failedBoots_nil : failedBoots digest [] = [] := rfl

@[simp] theorem failedBoots_concat :
    failedBoots digest (run ++ [step]) = recordBoot digest (failedBoots digest run) step := by
  simp [failedBoots]

theorem IsBootRun.of_append {later : List Transition} (h : IsBootRun threshold (run ++ later)) :
    IsBootRun threshold run where
  threshold_eq digest bootId reason t now hmem :=
    h.threshold_eq digest bootId reason t now (List.mem_append_left _ hmem)
  boot_ne step hmem := h.boot_ne step (List.mem_append_left _ hmem)
  one_digest first hfirst second hsecond :=
    h.one_digest first (List.mem_append_left _ hfirst) second (List.mem_append_left _ hsecond)
  contiguous earlier first between second rest digest bootId hrun := by
    refine h.contiguous earlier first between second (rest ++ later) digest bootId ?_
    rw [hrun]
    simp

/-! ### The boot on record -/

/-- The boot on record reported its digest. -/
theorem exists_report_of_slot (hboot : (stateAfter run).lastFailureBootId ≠ "") :
    ∃ earlier report between, run = earlier ++ report :: between ∧
      report.Reports (stateAfter run).currentDigest (stateAfter run).lastFailureBootId := by
  induction run using List.reverseRecOn with
  | nil => exact absurd rfl hboot
  | append_singleton run step ih =>
    rw [stateAfter_concat] at hboot ⊢
    -- a step that keeps the boot on record leaves the report where it was
    have hkeep (hcurrent : (step.apply (stateAfter run)).currentDigest =
          (stateAfter run).currentDigest)
        (hlast : (step.apply (stateAfter run)).lastFailureBootId =
          (stateAfter run).lastFailureBootId) :
        ∃ earlier report between, run ++ [step] = earlier ++ report :: between ∧
          report.Reports (step.apply (stateAfter run)).currentDigest
            (step.apply (stateAfter run)).lastFailureBootId := by
      rw [hlast] at hboot
      obtain ⟨earlier, report, between, hrun, hreport⟩ := ih hboot
      refine ⟨earlier, report, between ++ [step], ?_, ?_⟩
      · rw [← List.cons_append, ← List.append_assoc, ← hrun]
      · rw [hcurrent, hlast]
        exact hreport
    cases step with
    | recordFailure digest bootId reason t now =>
      exact ⟨run, .recordFailure digest bootId reason t now, [], rfl, rfl, rfl⟩
    | markHealthy digest now => exact absurd rfl hboot
    | recordStaged digest ring now => exact hkeep rfl rfl
    | noteRollbackAttempted digest error now => exact hkeep rfl rfl
    | clearQuarantine digest now => exact hkeep rfl rfl

/-- A report stays on record as long as nothing interrupts it. -/
theorem slot_of_uninterrupted {report : Transition} (hreport : report.Reports digest bootId)
    (h : ∀ step ∈ between, ¬ step.Interrupts digest bootId)
    (hdigest : ∀ step ∈ between, ∀ other, step.Reports other bootId → other = digest) :
    (stateAfter (earlier ++ report :: between)).currentDigest = digest ∧
      (stateAfter (earlier ++ report :: between)).lastFailureBootId = bootId := by
  induction between using List.reverseRecOn with
  | nil =>
    rw [stateAfter_concat]
    cases report with
    | recordFailure d b reason t now => exact hreport
    | _ => exact hreport.elim
  | append_singleton between step ih =>
    have ih := ih (fun step' hstep' => h step' (List.mem_append_left _ hstep'))
      (fun step' hstep' => hdigest step' (List.mem_append_left _ hstep'))
    have hquiet := h step (by simp)
    rw [← List.cons_append, ← List.append_assoc, stateAfter_concat]
    cases step with
    | recordFailure d b reason t now =>
      obtain rfl : b = bootId := not_not.1 hquiet
      exact ⟨hdigest (.recordFailure d b reason t now) (by simp) d ⟨rfl, rfl⟩, rfl⟩
    | markHealthy d now => exact absurd trivial hquiet
    | recordStaged d ring now => exact ih
    | noteRollbackAttempted d error now => exact ih
    | clearQuarantine d now => exact ih

/-- A boot that counts for a digest reported it. -/
theorem exists_report_of_mem (h : bootId ∈ failedBoots digest run) :
    ∃ earlier report between, run = earlier ++ report :: between ∧
      report.Reports digest bootId := by
  induction run using List.reverseRecOn with
  | nil => simp at h
  | append_singleton run step ih =>
    have hold (h : bootId ∈ failedBoots digest run) :
        ∃ earlier report between, run ++ [step] = earlier ++ report :: between ∧
          report.Reports digest bootId := by
      obtain ⟨earlier, report, between, rfl, hreport⟩ := ih h
      exact ⟨earlier, report, between ++ [step], by simp, hreport⟩
    rw [failedBoots_concat] at h
    cases step with
    | recordFailure d b reason t now =>
      rw [recordBoot] at h
      split_ifs at h with hd
      · obtain rfl | h := List.mem_cons.1 h
        · exact ⟨run, .recordFailure d bootId reason t now, [], rfl, hd, rfl⟩
        · exact hold h
      · exact hold h
    | markHealthy d now =>
      rw [recordBoot] at h
      split_ifs at h with hd
      · simp at h
      · exact hold h
    | clearQuarantine d now =>
      rw [recordBoot] at h
      split_ifs at h with hd
      · simp at h
      · exact hold h
    | recordStaged d ring now => exact hold h
    | noteRollbackAttempted d error now => exact hold h

/-- A report counts for its digest as long as nothing interrupts it. -/
theorem mem_failedBoots_of_uninterrupted {report : Transition}
    (hreport : report.Reports digest bootId)
    (h : ∀ step ∈ between, ¬ step.Interrupts digest bootId) :
    bootId ∈ failedBoots digest (earlier ++ report :: between) := by
  induction between using List.reverseRecOn with
  | nil =>
    rw [failedBoots_concat]
    cases report with
    | recordFailure d b reason t now => simp [recordBoot, hreport.1, hreport.2]
    | _ => exact hreport.elim
  | append_singleton between step ih =>
    have ih := ih fun step' hstep' => h step' (List.mem_append_left _ hstep')
    have hquiet := h step (by simp)
    rw [← List.cons_append, ← List.append_assoc, failedBoots_concat]
    cases step with
    | recordFailure d b reason t now =>
      rw [recordBoot]
      split_ifs
      · exact List.mem_cons_of_mem _ ih
      · exact ih
    | markHealthy d now => exact absurd trivial hquiet
    | clearQuarantine d now =>
      have hd : d ≠ digest := hquiet
      rw [recordBoot, if_neg hd]
      exact ih
    | recordStaged d ring now => exact ih
    | noteRollbackAttempted d error now => exact ih

/-- In a run of boots the one boot on record is enough: a report is a repetition exactly when its
boot already counts. -/
theorem countsThisBoot_iff
    (h : IsBootRun threshold (run ++ [.recordFailure digest bootId reason t now])) :
    countsThisBoot (stateAfter run) digest bootId = true ↔ bootId ∉ failedBoots digest run := by
  set last := Transition.recordFailure digest bootId reason t now with hlast
  have hmem : last ∈ run ++ [last] := List.mem_append_right _ List.mem_cons_self
  have hreport : last.Reports digest bootId := ⟨rfl, rfl⟩
  rw [← Bool.not_eq_false, countsThisBoot_eq_false, not_iff_not]
  constructor
  · rintro ⟨hcurrent, hslot⟩
    have hne : (stateAfter run).lastFailureBootId ≠ "" := by
      rw [hslot]
      exact h.boot_ne last hmem digest bootId hreport
    obtain ⟨earlier, report, between, hrun, hfirst⟩ := exists_report_of_slot hne
    rw [hcurrent, hslot] at hfirst
    have hquiet := h.contiguous earlier report between last [] digest bootId (by rw [hrun]) hfirst
      hreport
    rw [hrun]
    exact mem_failedBoots_of_uninterrupted hfirst hquiet
  · intro hcounted
    obtain ⟨earlier, report, between, hrun, hfirst⟩ := exists_report_of_mem hcounted
    have hquiet := h.contiguous earlier report between last [] digest bootId (by rw [hrun]) hfirst
      hreport
    rw [hrun]
    refine slot_of_uninterrupted hfirst hquiet fun step hstep other hother => ?_
    refine h.one_digest step ?_ last hmem other digest bootId hother hreport
    rw [hrun]
    simp [hstep]

/-! ### The count -/

/-- The state holds a count for every digest: its tally, its quarantine and its record. -/
structure Counted (threshold : ℤ) (s : BootHealthState) (digest : String) (count : ℕ) : Prop where
  tally : s.failuresByDigest.lookup digest = if count = 0 then none else some (count : ℤ)
  quarantined : digest ∈ s.quarantined ↔ threshold ≤ count
  record : ∀ record, s.quarantined.lookup digest = some record → record.failures = count

variable {s : BootHealthState} {count : ℕ}

theorem Counted.tally_eq (h : Counted threshold s digest count) : s.tally digest = count := by
  rw [BootHealthState.tally, h.tally]
  split_ifs with hzero
  · simp [hzero]
  · rfl

/-- A digest without a record and without a tally has no failed boots. -/
theorem counted_zero (hthreshold : 1 ≤ threshold)
    (htally : s.failuresByDigest.lookup digest = none)
    (hquarantined : s.quarantined.lookup digest = none) : Counted threshold s digest 0 where
  tally := htally
  quarantined := by
    rw [← AList.lookup_isSome, hquarantined]
    simp
    omega
  record record hrecord := by simp [hquarantined] at hrecord

/-- The count of a digest depends on its tally and its record only. -/
theorem Counted.congr {s' : BootHealthState} (h : Counted threshold s digest count)
    (htally : s'.failuresByDigest.lookup digest = s.failuresByDigest.lookup digest)
    (hquarantined : s'.quarantined.lookup digest = s.quarantined.lookup digest) :
    Counted threshold s' digest count where
  tally := htally.trans h.tally
  quarantined := by
    rw [← AList.lookup_isSome, hquarantined, AList.lookup_isSome]
    exact h.quarantined
  record record hrecord := h.record record (hquarantined ▸ hrecord)

/-- A report of the digest moves the count to the tally that it compares with the threshold. -/
theorem Counted.report (h : Counted threshold s digest count) {count' : ℕ} (hle : count ≤ count')
    (hpos : 0 < count') (hfailures : digestFailures s digest bootId = count') :
    Counted threshold (recordFailure s digest bootId reason threshold now) digest count' where
  tally := by
    rw [if_neg hpos.ne']
    cases hcounts : countsThisBoot s digest bootId with
    | true => simp [recordFailure, hcounts, hfailures]
    | false =>
      have hcount : (count : ℤ) = count' := by
        rw [← hfailures, digestFailures_of_repeated hcounts, h.tally_eq]
      have hcount' : count = count' := by exact_mod_cast hcount
      simp [recordFailure, hcounts, h.tally, hcount', hpos.ne']
  quarantined := by
    rw [recordFailure_quarantined, mem_quarantinedAfter_self, hfailures, h.quarantined]
    omega
  record record hrecord := by
    rw [recordFailure_quarantined, quarantinedAfter, hfailures] at hrecord
    split_ifs at hrecord with hreached
    · rw [AList.lookup_insert] at hrecord
      cases hrecord
      exact hfailures
    · have hmem : digest ∈ s.quarantined := by
        rw [← AList.lookup_isSome, hrecord]
        rfl
      have := h.quarantined.1 hmem
      omega

/-- The state counts exactly the failed boots of every digest since it was last forgiven, and
quarantines the digest exactly at the threshold. -/
theorem tally_counts_boots (hthreshold : 1 ≤ threshold) (h : IsBootRun threshold run)
    (digest : String) : Counted threshold (stateAfter run) digest (bootCount digest run) := by
  induction run using List.reverseRecOn with
  | nil => exact counted_zero hthreshold rfl rfl
  | append_singleton run step ih =>
    have ih := ih h.of_append
    unfold bootCount at ih ⊢
    rw [stateAfter_concat, failedBoots_concat]
    cases step with
    | recordStaged d ring now => exact ih.congr rfl rfl
    | noteRollbackAttempted d error now => exact ih.congr rfl rfl
    | markHealthy d now =>
      rw [recordBoot]
      split_ifs with hd
      · subst hd
        exact counted_zero hthreshold (AList.lookup_erase _ _) (AList.lookup_erase _ _)
      · exact ih.congr (AList.lookup_erase_ne (Ne.symm hd)) (AList.lookup_erase_ne (Ne.symm hd))
    | clearQuarantine d now =>
      rw [recordBoot]
      split_ifs with hd
      · subst hd
        exact counted_zero hthreshold (AList.lookup_erase _ _) (AList.lookup_erase _ _)
      · exact ih.congr (AList.lookup_erase_ne (Ne.symm hd)) (AList.lookup_erase_ne (Ne.symm hd))
    | recordFailure d b reason t now =>
      obtain rfl : t = threshold := h.threshold_eq d b reason t now (by simp)
      rw [recordBoot]
      split_ifs with hd
      · subst hd
        rw [List.toFinset_cons]
        by_cases hmem : b ∈ (failedBoots d run).toFinset
        · -- a repeated report of a boot that already counts
          have hrepeated : countsThisBoot (stateAfter run) d b = false := by
            rw [← Bool.not_eq_true, countsThisBoot_iff h, not_not]
            exact List.mem_toFinset.1 hmem
          rw [Finset.insert_eq_of_mem hmem]
          refine ih.report le_rfl (Finset.card_pos.2 ⟨b, hmem⟩) ?_
          rw [digestFailures_of_repeated hrepeated, ih.tally_eq]
        · have hcounts : countsThisBoot (stateAfter run) d b = true :=
            (countsThisBoot_iff h).2 fun hb => hmem (List.mem_toFinset.2 hb)
          rw [Finset.card_insert_of_notMem hmem]
          refine ih.report (Nat.le_succ _) (Nat.succ_pos _) ?_
          rw [digestFailures_of_counts hcounts, ih.tally_eq]
          push_cast
          rfl
      · exact ih.congr (lookup_recordFailure_ne (Ne.symm hd))
          (lookup_quarantinedAfter_ne (Ne.symm hd))

/-- Two reports of one boot and a boot of another digest. -/
def alternatingRun : List Transition :=
  [.recordFailure "sha256:a" "boot-1" "display" 1 10, .recordFailure "sha256:a" "boot-1" "audio" 1 11,
    .recordFailure "sha256:b" "boot-2" "display" 1 20]

theorem isBootRun_alternatingRun : IsBootRun 1 alternatingRun where
  threshold_eq digest bootId reason t now hmem := by
    simp only [alternatingRun, List.mem_cons, Transition.recordFailure.injEq, List.not_mem_nil,
      or_false] at hmem
    omega
  boot_ne step hmem digest bootId hreport := by
    simp only [alternatingRun, List.mem_cons, List.not_mem_nil, or_false] at hmem
    obtain rfl | rfl | rfl := hmem
    all_goals
      obtain ⟨rfl, rfl⟩ := hreport
      decide
  one_digest first hfirst second hsecond digest other bootId hreport hreport' := by
    simp only [alternatingRun, List.mem_cons, List.not_mem_nil, or_false] at hfirst hsecond
    obtain rfl | rfl | rfl := hfirst <;> obtain rfl | rfl | rfl := hsecond
    all_goals
      obtain ⟨rfl, rfl⟩ := hreport
      obtain ⟨rfl, hboot⟩ := hreport'
      first | rfl | simp at hboot
  contiguous earlier first between second later digest bootId hrun hreport hreport' := by
    have hlength := congrArg List.length hrun
    simp only [alternatingRun, List.length_append, List.length_cons, List.length_nil] at hlength
    cases between with
    | nil => simp
    | cons step between =>
      -- only the first and the last report have one between them, and their boots differ
      obtain rfl : earlier = [] := List.length_eq_zero_iff.1 (by simp at hlength; omega)
      obtain rfl : between = [] := List.length_eq_zero_iff.1 (by simp at hlength; omega)
      simp only [alternatingRun, List.nil_append, List.cons_append, List.cons.injEq] at hrun
      obtain ⟨rfl, rfl, rfl, -⟩ := hrun
      obtain ⟨rfl, rfl⟩ := hreport
      simp [Transition.Reports] at hreport'

theorem tally_counts_boots_alternatingRun :
    IsBootRun 1 alternatingRun ∧ bootCount "sha256:a" alternatingRun = 1 ∧
      Counted 1 (stateAfter alternatingRun) "sha256:a" (bootCount "sha256:a" alternatingRun) :=
  ⟨isBootRun_alternatingRun, by decide,
    tally_counts_boots le_rfl isBootRun_alternatingRun "sha256:a"⟩

end Kyth.BootHealth
