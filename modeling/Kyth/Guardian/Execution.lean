import Kyth.Guardian.Executor
import Kyth.Guardian.Refresh

/-!
# When an execution is recorded

`execute_recipe` records an execution after its last command. A run that panics in between leaves no
record, and it panics exactly when the text of one of its commands has a character across the byte at
which it is cut: `execution_recorded_iff`.
-/

namespace Kyth.Guardian

open Action Boundary

/-- The text of the output has a character across the byte at which it is cut. -/
def Ran.CutsInside (r : Ran) : Prop :=
  r.reported = true ∧ ∃ success stdout stderr, r.answer = .exited success stdout stderr ∧
    detailBytes ≤ byteLength (commandDetail stdout stderr) ∧
      isCharBoundary (commandDetail stdout stderr) detailBytes = false

variable {host : Host} {s : GuardianState} {recipe : Recipe} {log : List Ran} {history : List Entry}
  {record e : Entry}

/-! ### Every part of an execution -/

theorem runBounded_faults (host : Host) (argv : List String) :
    FaultsExactly Ran.CutsInside (runBounded host false argv) := by
  intro log
  refine ⟨_, rfl, iff_of_true ⟨_, rfl⟩ fun r hr hcuts => ?_⟩
  obtain rfl := List.mem_singleton.1 hr
  exact Bool.noConfusion hcuts.1

/-- Reading an answer runs nothing, and panics on a text that is cut inside a character. -/
theorem commandResult_run (argv : List String) (answer : CommandAnswer) (log : List Ran) :
    ((commandResult answer).run log).2 = log ∧
      ((∃ a, ((commandResult answer).run log).1 = .ok a) ↔
        ¬ Ran.CutsInside ⟨argv, true, answer⟩) := by
  cases answer with
  | timedOut =>
    refine ⟨rfl, iff_of_true ⟨_, rfl⟩ ?_⟩
    rintro ⟨-, success, stdout, stderr, hanswer, -⟩
    cases hanswer
  | failed =>
    refine ⟨rfl, iff_of_true ⟨_, rfl⟩ ?_⟩
    rintro ⟨-, success, stdout, stderr, hanswer, -⟩
    cases hanswer
  | exited success stdout stderr =>
    have hcuts : Ran.CutsInside ⟨argv, true, .exited success stdout stderr⟩ ↔
        truncate (commandDetail stdout stderr) detailBytes = none := by
      rw [← Option.not_isSome_iff_eq_none, truncate_isSome]
      constructor
      · rintro ⟨-, success', stdout', stderr', hanswer, hlong, hinside⟩
        cases hanswer
        simp [hinside, hlong]
      · intro h
        rw [not_or, not_lt, Bool.not_eq_true] at h
        exact ⟨rfl, success, stdout, stderr, rfl, h⟩
    rw [hcuts, commandResult]
    cases htruncate : truncate (commandDetail stdout stderr) detailBytes with
    | none => exact ⟨rfl, iff_of_false (by rintro ⟨a, ha⟩; cases ha) (by simp)⟩
    | some detail =>
      refine ⟨?_, iff_of_true ?_ (by simp)⟩ <;> cases success
      · rfl
      · rfl
      · exact ⟨_, rfl⟩
      · exact ⟨_, rfl⟩

/-- `run_command` panics on the output that it cuts inside a character. -/
theorem runCommand_survives (host : Host) (argv : List String) :
    Survives Ran.CutsInside (runCommand host argv) := by
  intro log
  generalize hanswer : (if argv = [] then CommandAnswer.failed else host.answer log argv) = answer
  have hrun : (runCommand host argv).run log =
      (commandResult answer).run (log ++ [⟨argv, true, answer⟩]) := by
    rw [← hanswer]
    rfl
  obtain ⟨hlog, hok⟩ := commandResult_run argv answer (log ++ [⟨argv, true, answer⟩])
  rw [hrun]
  exact ⟨[⟨argv, true, answer⟩], hlog, by rw [hok, List.forall_mem_singleton]⟩

theorem runOk_survives (host : Host) (argv : List String) :
    Survives Ran.CutsInside (runOk host argv) :=
  (runCommand_survives host argv).bind fun _ => .pure _

theorem tryOk_survives (host : Host) (argv : List String) :
    Survives Ran.CutsInside (tryOk host argv) :=
  (Survives.lift (runOk_survives host argv)).bind fun _ => .pure _

theorem checkVpnDnsLeakLive_survives (host : Host) :
    Survives Ran.CutsInside (checkVpnDnsLeakLive host) := by
  refine (runCommand_survives host _).adapt.bind fun output => ?_
  split
  · exact .pure _
  · exact .throw _

theorem applyVpnDnsExclusiveLive_survives (host : Host) :
    Survives Ran.CutsInside (applyVpnDnsExclusiveLive host) := by
  refine .ite (.throw _) ?_
  refine (runCommand_survives host _).adapt.bind fun output => ?_
  refine .ite (.throw _) (.ite (.throw _) ?_)
  refine Survives.bind (.forM fun link => .forM fun argv => ?_) fun _ => .pure _
  exact (runOk_survives host argv).adapt

theorem sinkFallback_survives (host : Host) : Survives Ran.CutsInside (sinkFallback host) := by
  refine (runCommand_survives host _).bind fun output => ?_
  dsimp only
  split
  · exact .throw _
  · exact (runOk_survives host _).bind fun _ => .pure _

theorem captiveFix_survives (host : Host) : Survives Ran.CutsInside (captiveFix host) := by
  refine (runOk_survives host _).bind fun _ => (tryOk_survives host _).bind fun on => ?_
  exact .ite (.pure _) ((tryOk_survives host _).bind fun _ => .throw _)

theorem bringUpVpn_survives (host : Host) (lines : List (List Char)) :
    Survives Ran.CutsInside (bringUpVpn host lines) := by
  induction lines with
  | nil => exact .throw _
  | cons line lines ih =>
    rw [bringUpVpn]
    exact .ite ((runOk_survives host _).bind fun _ => .pure _) ih

theorem firmwareRefresh_survives (host : Host) :
    Survives Ran.CutsInside (firmwareRefresh host) := by
  refine (tryOk_survives host _).bind fun refreshed => ?_
  exact .ite (.pure _) ((runOk_survives host _).bind fun _ => .pure _)

theorem runExecutor_survives (host : Host) (recipeId : String) :
    Survives Ran.CutsInside (runExecutor host recipeId) := by
  unfold runExecutor
  split
  · exact (tryOk_survives host _).bind fun _ => (runOk_survives host _).bind fun _ => .pure _
  · exact sinkFallback_survives host
  · exact (runOk_survives host _).bind fun _ => .pure _
  · exact (tryOk_survives host _).bind fun _ => .ite (.pure _)
      ((tryOk_survives host _).bind fun _ => .ite (.pure _) (.throw _))
  · exact captiveFix_survives host
  · exact (runCommand_survives host _).bind fun _ => bringUpVpn_survives host _
  · exact checkVpnDnsLeakLive_survives host
  · exact applyVpnDnsExclusiveLive_survives host
  · exact (runOk_survives host _).bind fun _ => .pure _
  · exact (runOk_survives host _).bind fun _ => (tryOk_survives host _).bind fun _ => .pure _
  · exact firmwareRefresh_survives host
  · exact (runCommand_survives host _).bind fun _ => .ite (.pure _) (.throw _)
  · exact .throw _

theorem maintVerifiedFrom_faults (host : Host) (checked : Bool) (mounts : List String) :
    FaultsExactly Ran.CutsInside (maintVerifiedFrom host checked mounts) := by
  induction mounts generalizing checked with
  | nil => exact .pure _
  | cons mount mounts ih =>
    refine .ite ((runBounded_faults host _).bind fun answer => ?_) (ih checked)
    split
    · exact .ite (ih true) (.pure _)
    · exact .pure _

theorem verifyRecipe_faults (host : Host) (recipeId : String) :
    FaultsExactly Ran.CutsInside (verifyRecipe host recipeId) :=
  .ite (maintVerifiedFrom_faults host _ _)
    (FaultsExactly.bind (runOk_survives host _) fun _ => .pure _)

/-- An execution panics on the output that it cuts inside a character. -/
theorem executeRecipe_faults (host : Host) (s : GuardianState) (recipeId : String) (askpass : Bool)
    (clock : Clock) : FaultsExactly Ran.CutsInside (executeRecipe host s recipeId askpass clock) := by
  unfold executeRecipe
  split
  · exact .pure _
  · refine FaultsExactly.bind ?_ fun result => .bind ?_ fun verified => .pure _
    · exact FaultsExactly.ite (runExecutor_survives host _) (runCommand_survives host _)
    · exact .ite (verifyRecipe_faults host _) (.pure _)

/-! ### The record -/

theorem mem_coalesceRecommendations (h : e ∈ coalesceRecommendations history) : e ∈ history := by
  unfold coalesceRecommendations at h
  induction history using List.reverseRecOn with
  | nil => cases h
  | append_singleton history item ih =>
    rw [coalesce_concat] at h
    generalize history.foldl coalesceStep (∅, []) = acc at h ih
    have hset : ∀ i, e ∈ acc.2.set i item → e ∈ acc.2 ∨ e = item := fun i hmem =>
      List.mem_or_eq_of_mem_set hmem
    have hstep : e ∈ acc.2 ∨ e = item := by
      unfold coalesceStep at h
      split_ifs at h
      · split at h
        · exact hset _ h
        · simpa using h
      · simpa using h
      · simpa using h
    obtain hold | rfl := hstep
    · exact List.mem_append_left _ (ih hold)
    · exact List.mem_append_right _ (List.mem_singleton_self e)

theorem mem_capHistory (h : e ∈ capHistory history) : e ∈ history := by
  unfold capHistory at h
  exact List.mem_of_mem_drop h

/-- The cap never drops the newest record. -/
theorem capHistory_concat (history : List Entry) (record : Entry) :
    ∃ kept, capHistory (history ++ [record]) = kept ++ [record] ∧ ∀ e ∈ kept, e ∈ history := by
  refine ⟨history.drop ((history ++ [record]).length - historyCap), ?_, fun e he =>
    List.mem_of_mem_drop he⟩
  unfold capHistory
  have hcap : historyCap = 200 := rfl
  rw [List.drop_append_of_le_length (by rw [List.length_append, List.length_singleton]; omega)]

theorem coalesceRecommendations_concat (hrecord : record.isRecommended = false) :
    coalesceRecommendations (history ++ [record]) =
      coalesceRecommendations history ++ [record] := by
  unfold coalesceRecommendations
  rw [coalesce_concat]
  have hother : ¬ (record.recipe ≠ "" ∧ record.isRecommended = true) := by
    rw [hrecord]
    exact fun h => Bool.noConfusion h.2
  obtain ⟨open', hstep, -⟩ := coalesceStep_other (history.foldl coalesceStep (∅, [])) hother
  rw [hstep]

/-- A save keeps the record of an execution as the last one. -/
theorem saveState_recordExecution (s : GuardianState) (recipe : Recipe)
    (result : Except String String) (verifies : Bool) (recordedAt : ℚ) :
    ∃ kept, (saveState (recordExecution s recipe result verifies recordedAt)).history =
        kept ++ [executionRecord recipe result verifies recordedAt] ∧ ∀ e ∈ kept, e ∈ s.history := by
  have hrecord : (executionRecord recipe result verifies recordedAt).isRecommended = false := rfl
  obtain ⟨kept, hkept, hold⟩ := capHistory_concat s.history
    (executionRecord recipe result verifies recordedAt)
  obtain ⟨kept', hkept', hold'⟩ := capHistory_concat (coalesceRecommendations kept)
    (executionRecord recipe result verifies recordedAt)
  refine ⟨kept', ?_, fun e he => hold e (mem_coalesceRecommendations (hold' e he))⟩
  rw [saveState, recordExecution]
  show capHistory (coalesceRecommendations (capHistory _)) = _
  rw [hkept, coalesceRecommendations_concat hrecord, hkept']

/-! ### The gate -/

theorem find?_recipes : ∀ recipe ∈ recipes,
    recipes.find? (fun known => known.id == recipe.id) = some recipe := by decide

/-- The gate lets an eligible recipe in, unless nobody can type its password. -/
theorem admitRecipe_eq (askpass : Bool) {pendingNow now : ℚ} (hmem : recipe ∈ recipes)
    (hcommand : recipe.command ≠ []) (hrisk : recipe.risk ≠ .advisory)
    (hpending : isPendingRecipe s pendingNow recipe.id = true)
    (hcooldown : cooldownActive s now recipe = false) :
    (recipe.requiresAuth = true → askpass = true) ∧
        admitRecipe s recipe.id askpass pendingNow now = .ok recipe ∨
      ¬ (recipe.requiresAuth = true → askpass = true) ∧
        ∃ message, admitRecipe s recipe.id askpass pendingNow now = .error message := by
  rw [admitRecipe, find?_recipes recipe hmem]
  simp only [hcommand, hrisk, hpending, hcooldown, or_self, Bool.true_eq_false, Bool.false_eq_true,
    if_false]
  by_cases hauth : recipe.requiresAuth = true ∧ askpass = false
  · rw [if_pos hauth]
    refine .inr ⟨fun h => ?_, _, rfl⟩
    rw [h hauth.1] at hauth
    exact Bool.noConfusion hauth.2
  · rw [if_neg hauth]
    exact .inl ⟨fun h => Bool.not_eq_false _ ▸ fun hno => hauth ⟨h, hno⟩, rfl⟩

/-- An eligible recipe is executed and recorded exactly when its password can be typed and no text
of its commands has a character across the byte at which it is cut. -/
theorem execution_recorded_iff (host : Host) (s : GuardianState) (recipe : Recipe) (askpass : Bool)
    (clock : Clock) (hmem : recipe ∈ recipes) (hcommand : recipe.command ≠ [])
    (hrisk : recipe.risk ≠ .advisory) (hpending : isPendingRecipe s clock.pending recipe.id = true)
    (hcooldown : cooldownActive s clock.cooldown recipe = false) :
    (∃ reply saved kept result verified,
        (executeRecipe host s recipe.id askpass clock []).1 = .ok (reply, some saved) ∧
          saved.history = kept ++ [executionRecord recipe result verified clock.record] ∧
            ∀ e ∈ kept, e ∈ s.history) ↔
      (recipe.requiresAuth = true → askpass = true) ∧
        ∀ r ∈ (executeRecipe host s recipe.id askpass clock []).2, ¬ r.CutsInside := by
  obtain ⟨fresh, hlog, hok⟩ := executeRecipe_faults host s recipe.id askpass clock []
  rw [hlog, List.nil_append, ← hok]
  obtain ⟨hauth, hadmit⟩ | ⟨hauth, message, hadmit⟩ :=
    admitRecipe_eq askpass hmem hcommand hrisk hpending hcooldown
  · constructor
    · rintro ⟨reply, saved, kept, result, verified, hrun, -⟩
      exact ⟨hauth, _, hrun⟩
    · rintro ⟨-, outcome, hrun⟩
      rw [executeRecipe, hadmit] at hrun ⊢
      simp only at hrun ⊢
      obtain ⟨result, log', hresult, hrest⟩ := bind_eq_ok.1 (Prod.ext hrun rfl)
      obtain ⟨verified, log'', hverified, hreply⟩ := bind_eq_ok.1 hrest
      obtain ⟨kept, hkept, hold⟩ := saveState_recordExecution s recipe result verified clock.record
      cases hreply
      exact ⟨_, _, kept, result, verified, hrun, hkept, hold⟩
  · refine iff_of_false ?_ fun h => hauth h.1
    rintro ⟨reply, saved, kept, result, verified, hrun, -⟩
    rw [executeRecipe, hadmit] at hrun
    cases hrun

/-- The recipe that refreshes the metadata of Flatpak. -/
def refreshMetadata : Recipe where
  id := "flatpak.refresh-metadata"
  title := "Refresh Flatpak metadata"
  component := "flatpak"
  command := ["flatpak", "update", "--appstream", "--user", "--noninteractive"]
  risk := .safe
  cooldown := 1800

/-- A state that recommends it. -/
def metadataState : GuardianState where
  history := [{ timestamp := some 100, recipeId := some "flatpak.refresh-metadata",
                action := some "recommended" }]

/-- The readings of the clock of an execution. -/
def metadataClock : Clock where
  pending := 200
  cooldown := 200
  record := 210

theorem refreshMetadata_eligible :
    refreshMetadata ∈ recipes ∧ refreshMetadata.command ≠ [] ∧ refreshMetadata.risk ≠ .advisory ∧
      isPendingRecipe metadataState metadataClock.pending refreshMetadata.id = true ∧
        cooldownActive metadataState metadataClock.cooldown refreshMetadata = false := by
  refine ⟨by decide, by decide, by decide, by decide +kernel, by decide⟩

theorem admitRecipe_metadata :
    admitRecipe metadataState refreshMetadata.id false metadataClock.pending
      metadataClock.cooldown = .ok refreshMetadata := by
  obtain ⟨hmem, hcommand, hrisk, hpending, hcooldown⟩ := refreshMetadata_eligible
  obtain ⟨-, hadmit⟩ | ⟨hauth, -⟩ := admitRecipe_eq false hmem hcommand hrisk hpending hcooldown
  · exact hadmit
  · exact absurd (fun h => Bool.noConfusion h) hauth

/-- A host whose commands succeed without output. -/
def quietHost : Host where
  answer _ _ := .exited true [] []

theorem execution_recorded_quiet :
    ∃ reply saved kept result verified,
      (executeRecipe quietHost metadataState refreshMetadata.id false metadataClock []).1 =
          .ok (reply, some saved) ∧
        saved.history = kept ++ [executionRecord refreshMetadata result verified
          metadataClock.record] ∧ ∀ e ∈ kept, e ∈ metadataState.history := by
  obtain ⟨hmem, hcommand, hrisk, hpending, hcooldown⟩ := refreshMetadata_eligible
  refine (execution_recorded_iff quietHost metadataState refreshMetadata false metadataClock hmem
    hcommand hrisk hpending hcooldown).2 ⟨fun h => Bool.noConfusion h, fun r hr hcuts => ?_⟩
  have hdetail : commandDetail [] [] = [] := by
    rw [commandDetail, Utf8.fromUtf8Lossy_of_done rfl]
    rfl
  have hrun : ∀ argv log, argv ≠ [] → (runCommand quietHost argv).run log =
      (.ok (.ok "done"), log ++ [⟨argv, true, .exited true [] []⟩]) := by
    intro argv log hargv
    show (commandResult (if argv = [] then .failed else .exited true [] [])).run
      (log ++ [⟨argv, true, if argv = [] then .failed else .exited true [] []⟩]) = _
    rw [if_neg hargv, commandResult, hdetail]
    rfl
  have hlog : ∀ r ∈ (executeRecipe quietHost metadataState refreshMetadata.id false
      metadataClock []).2, r.answer = .exited true [] [] := by
    have hrepair := hrun refreshMetadata.command [] (by decide)
    have hverify := hrun (verification refreshMetadata.id)
      [⟨refreshMetadata.command, true, .exited true [] []⟩] (by decide)
    have hok : (repairResult quietHost refreshMetadata []) =
        (.ok (.ok "done"), [⟨refreshMetadata.command, true, .exited true [] []⟩]) := by
      rw [repairResult, if_neg (by decide), hrepair]
      rfl
    have hoks : (runOk quietHost (verification refreshMetadata.id)).run
        [⟨refreshMetadata.command, true, .exited true [] []⟩] =
        (.ok (.ok ()), [⟨refreshMetadata.command, true, .exited true [] []⟩,
          ⟨verification refreshMetadata.id, true, .exited true [] []⟩]) := by
      rw [runOk, ExceptT.run_bind, bind_apply, hverify]
      rfl
    have hverified : verifyResult quietHost refreshMetadata (.ok "done")
        [⟨refreshMetadata.command, true, .exited true [] []⟩] =
        (.ok true, [⟨refreshMetadata.command, true, .exited true [] []⟩,
          ⟨verification refreshMetadata.id, true, .exited true [] []⟩]) := by
      rw [verifyResult, if_pos (by rfl), verifyRecipe, if_neg (by decide), bind_apply, hoks]
      rfl
    rw [executeRecipe, admitRecipe_metadata]
    simp only [bind_apply, hok, hverified]
    simp
  obtain ⟨-, success, stdout, stderr, hanswer, hlong, -⟩ := hcuts
  rw [hlog r hr] at hanswer
  cases hanswer
  rw [hdetail] at hlong
  cases hlong

/-- A host whose commands fail with a message that has a character across the 400th byte. -/
def verboseHost : Host where
  answer _ _ := .exited false [] (List.replicate 399 97 ++ [0xC3, 0xA9])

theorem fromUtf8Lossy_letters (n : ℕ) (more : List UInt8) :
    Utf8.fromUtf8Lossy (List.replicate n 97 ++ more) =
      List.replicate n 'a' ++ Utf8.fromUtf8Lossy more := by
  induction n with
  | zero => rfl
  | succ n ih =>
    have hscan : Utf8.scan (97 :: (List.replicate n 97 ++ more)) =
        .char 'a' (List.replicate n 97 ++ more) := rfl
    rw [List.replicate_succ, List.cons_append, Utf8.fromUtf8Lossy_of_char hscan, ih]
    rfl

/-- The command ran and the repair panics: nothing is recorded. -/
theorem execution_panics_inside_character :
    refreshMetadata ∈ recipes ∧ refreshMetadata.command ≠ [] ∧ refreshMetadata.risk ≠ .advisory ∧
      isPendingRecipe metadataState metadataClock.pending refreshMetadata.id = true ∧
      cooldownActive metadataState metadataClock.cooldown refreshMetadata = false ∧
      (executeRecipe verboseHost metadataState refreshMetadata.id false metadataClock []).1 =
        .error .insideCharacter := by
  obtain ⟨hmem, hcommand, hrisk, hpending, hcooldown⟩ := refreshMetadata_eligible
  refine ⟨hmem, hcommand, hrisk, hpending, hcooldown, ?_⟩
  have hlast : Utf8.fromUtf8Lossy [0xC3, 0xA9] = ['é'] := by
    have hscan : Utf8.scan [0xC3, 0xA9] = .char 'é' [] := rfl
    rw [Utf8.fromUtf8Lossy_of_char hscan, Utf8.fromUtf8Lossy_of_done rfl]
  have htruncate : truncate (commandDetail [] (List.replicate 399 97 ++ [0xC3, 0xA9]))
      detailBytes = none := by
    rw [commandDetail, fromUtf8Lossy_letters, hlast]
    decide +kernel
  have hrun : ∀ argv log, argv ≠ [] → ((runCommand verboseHost argv).run log).1 =
      .error .insideCharacter := by
    intro argv log hargv
    show ((commandResult (if argv = [] then .failed else
      .exited false [] (List.replicate 399 97 ++ [0xC3, 0xA9]))).run _).1 = _
    rw [if_neg hargv, commandResult, htruncate]
    rfl
  have hrepair : (repairResult verboseHost refreshMetadata []).1 = .error .insideCharacter := by
    rw [repairResult, if_neg (by decide)]
    exact hrun _ _ (by decide)
  rw [executeRecipe, admitRecipe_metadata]
  exact bind_error hrepair

end Kyth.Guardian
