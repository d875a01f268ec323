import Kyth.Installer.Job
import Kyth.Installer.StoragePhase
import Kyth.Lib.Str

/-!
# The install transaction (`installer_transaction.rs`)

While a job runs, its executor (`installer_job_executor.rs`) keeps a transaction state and writes it
to a file: the status of the install, the checks it made and the destructive steps it took. The
rescue mode reads the status back (`rescue_guidance` in `installer_recovery.rs`), and
`status_transition` in `installer_orchestration.rs` says which status may follow which.

The bodies of the phases behind the first are parameters: what they recorded and how they ended. A
write may fail or the process may end there, with the file replaced or not.
-/

namespace Kyth.Transaction

open Str
open Kyth.Job (Phase)
open Kyth.Executor (Outcome Stop)

/-! ### The tables -/

/-- `RecoveryGuidance`. -/
structure RecoveryGuidance where
  status : String
  severity : String
  message : String
  bootable : Bool
  deriving DecidableEq, Repr

/-- `GUIDANCE`. -/
def guidance : List RecoveryGuidance :=
  [⟨"", "unknown", "No install transaction recorded. Do not assume the disk is bootable.", false⟩,
    ⟨"started", "incomplete",
      "Install started but storage did not finish. Stay in this live session.", false⟩,
    ⟨"prepared", "incomplete",
      "Install prepared a plan but storage did not finish. Stay in this live session.", false⟩,
    ⟨"storage_complete", "unbootable",
      "The image is on disk but the installed system is not configured yet. Continue or rescue " ++
        "from this live session — do not reboot into the target.", false⟩,
    ⟨"image_installed", "unbootable",
      "Legacy journal: image written, configure unknown. Treat the target as not bootable until " ++
        "configure_complete.", false⟩,
    ⟨"configure_started", "unbootable",
      "Configuring the installed system was interrupted. Continue from this live session — the " ++
        "target is not bootable yet.", false⟩,
    ⟨"configure_complete", "almost",
      "The installed system is configured. Secure Boot enrollment may still be pending — check " ++
        "MOK staging before reboot.", false⟩,
    ⟨"secure_boot_staged", "ready",
      "Secure Boot enrollment is staged. Reboot and enroll the MOK if the firmware prompts.", true⟩,
    ⟨"complete", "ready", "Install finished. The target should be bootable.", true⟩,
    ⟨"failed", "failed", "Install failed. Use the log tail and transaction details below.", false⟩]

/-- `rescue_guidance`. -/
def rescueGuidance (status : Option String) : RecoveryGuidance :=
  let status := status.getD ""
  match guidance.find? fun entry => entry.status == status with
  | some entry => { entry with status }
  | none =>
      { status, severity := "unknown"
        message := "Unrecognized transaction status " ++ debug status ++
          ". Do not assume the disk is bootable."
        bootable := false }

/-- `status_transition`. -/
def statusTransition (current next : String) : Bool :=
  if current == next then true
  else if next == "failed" then true
  else
    match current with
    | "" => next == "started" || next == "partitioning"
    | "partitioning" => next == "started"
    | "started" => next == "prepared"
    | "prepared" => next == "storage_complete"
    | "storage_complete" => next == "configure_started"
    | "configure_started" => next == "configure_complete"
    | "configure_complete" => next == "secure_boot_staged"
    | "secure_boot_staged" => next == "complete"
    | _ => false

/-! ### The state of a transaction -/

/-- A check of the report. -/
structure Check where
  name : String
  status : String
  detail : String
  deriving DecidableEq, Repr

/-- A destructive step of the report. -/
structure PartitionStep where
  index : String
  kind : String
  status : String
  target : String
  deriving DecidableEq, Repr

/-- `TransactionState`, as `from_request` makes it. -/
structure TransactionState where
  jobId : Option ℕ := none
  status : String := ""
  phase : String := "prepare"
  lifecycle : String := "idle"
  checks : List Check := []
  partitionSteps : List PartitionStep := []
  message : String := ""
  recoveryRequired : Bool := false
  deriving DecidableEq, Repr

/-- A phase as `serde` writes it. -/
def phaseName : Phase → String
  | .prepare => "prepare"
  | .storage => "storage"
  | .image => "image"
  | .configure => "configure"
  | .secureBoot => "secure_boot"
  | .complete => "complete"

/-- The `{:?}` form of a phase. -/
def phaseDebug : Phase → String
  | .prepare => "Prepare"
  | .storage => "Storage"
  | .image => "Image"
  | .configure => "Configure"
  | .secureBoot => "SecureBoot"
  | .complete => "Complete"

/-- The state that `write_transaction` writes. -/
def TransactionState.advance (state : TransactionState) (status : String) (phase : Phase)
    (lifecycle message : String) : TransactionState :=
  { state with
    checks := if status = "started" then [] else state.checks
    partitionSteps := if status = "started" then [] else state.partitionSteps
    status := status
    phase := phaseName phase
    lifecycle := lifecycle
    message := message
    recoveryRequired := status == "failed" }

/-- What the body of a phase adds to the report. -/
inductive Record
  | check (check : Check)
  | step (kind status target : String)
  deriving DecidableEq, Repr

/-- `append_check_for_phase` and `append_partition_step` on the state. -/
def TransactionState.append (state : TransactionState) : Record → TransactionState
  | .check check => { state with checks := state.checks ++ [check] }
  | .step kind status target =>
      { state with
        partitionSteps := state.partitionSteps ++
          [⟨toString state.partitionSteps.length, kind, status, target⟩] }

/-! ### The executor -/

/-- The executor of a job and the files of the machine. `persisted` is every status that was
written, with the one in the file that it replaced. -/
structure Session where
  path : String
  failurePath : String := "/run/kyth-installer/txn/failure.json"
  transaction : TransactionState := {}
  files : String → Option TransactionState := fun _ => none
  persisted : List (String × String) := []

/-- The status in a file. -/
def statusAt (files : String → Option TransactionState) (path : String) : String :=
  ((files path).map TransactionState.status).getD ""

/-- A step of the executor. -/
abbrev Step := Action Session Stop

/-- `installer_transaction::write_request`. -/
def writeRequest (path : String) (state : TransactionState) (outcome : Outcome) : Step Unit := fun s =>
  let replaced : Session :=
    { s with
      files := Function.update s.files path (some state)
      persisted := s.persisted ++ [(statusAt s.files path, state.status)] }
  match outcome with
  | .done => (.ok (), replaced)
  | .failed applied message => (.error (.failed message), if applied then replaced else s)
  | .crashed applied => (.error .crashed, if applied then replaced else s)

/-- An error that the caller drops. The end of the process is not one. -/
def ignoringFailure (x : Step Unit) : Step Unit := fun s =>
  match x s with
  | (.error (.failed _), s') => (.ok (), s')
  | (result, s') => (result, s')

/-- Keep a state and write it. -/
def writeState (f : TransactionState → TransactionState) (outcome : Outcome) : Step Unit := do
  Action.modify fun s => { s with transaction := f s.transaction }
  let s ← Action.get
  writeRequest s.path s.transaction outcome

/-- `write_transaction`. -/
def writeTransaction (status : String) (phase : Phase) (lifecycle message : String)
    (outcome : Outcome) : Step Unit :=
  writeState (fun state => state.advance status phase lifecycle message) outcome

/-- `append_check_for_phase` and `append_partition_step`. -/
def appendRecord (record : Record) (outcome : Outcome) : Step Unit :=
  writeState (fun state => state.append record) outcome

/-- `PowerCheck`. -/
structure PowerCheck where
  status : String
  detail : String
  deriving DecidableEq, Repr

/-- What happens in a phase: the answers to its writes, and what its body did. -/
structure PhaseRun where
  /-- The token of the job when the phase begins. -/
  cancelled : Bool := false
  startWrite : Outcome := .done
  power : PowerCheck := ⟨"pass", "No battery power constraint detected"⟩
  powerWrite : Outcome := .done
  planWrite : Outcome := .done
  /-- What the body of a later phase recorded. -/
  records : List (Record × Outcome) := []
  /-- How the body ended; of the last phase, how `cleanup_mounts` did. -/
  result : Except String Unit := .ok ()
  completionWrite : Outcome := .done

/-- `start_status` of `execute_phase_typed`. -/
def startStatus : Phase → Option (String × String)
  | .prepare => some ("started", "Installer started")
  | .configure => some ("configure_started", "Configuring the installed system")
  | _ => none

/-- `completion` of `execute_phase_typed`. -/
def completion : Phase → Option (String × String)
  | .prepare => some ("prepared", "Install plan prepared")
  | .image => some ("image_complete", "Operating system image written")
  | .configure => some ("configure_complete", "Installed system configured")
  | .secureBoot => some ("secure_boot_staged", "Secure Boot enrollment state classified")
  | .complete => none
  | .storage => none

/-- Write the status of a step of `execute_phase_typed`, if it has one. -/
def writeStatus (phase : Phase) (outcome : Outcome) : Option (String × String) → Step Unit
  | some (status, message) => writeTransaction status phase "installing" message outcome
  | none => pure ()

/-- A failure of the code outside. -/
def ofResult (result : Except String Unit) : Step Unit :=
  Action.check (result.mapError Stop.failed)

/-- The body of `Phase::Prepare`. -/
def prepare (run : PhaseRun) : Step Unit := do
  appendRecord (.check ⟨"power", run.power.status, run.power.detail⟩) run.powerWrite
  if run.power.status = "fail" then throw (.failed run.power.detail)
  else
    appendRecord (.check ⟨"native_plan", "pass", "Typed Rust installer plan validated"⟩)
      run.planWrite

/-- `execute_complete`. -/
def executeComplete (run : PhaseRun) : Step Unit := do
  ofResult run.result
  writeTransaction "complete" .complete "done" "Native installer completed successfully"
    run.completionWrite

/-- The records of a later phase. Whether its body stopped at a failed write shows in its result. -/
def recordAll : List (Record × Outcome) → Step Unit
  | [] => pure ()
  | (record, outcome) :: rest => do
      ignoringFailure (appendRecord record outcome)
      recordAll rest

/-- The body of a phase in between, of which only the records and the result are known. -/
def middleBody (run : PhaseRun) : Step Unit := do
  recordAll run.records
  ofResult run.result

/-- The body of a phase. -/
def phaseBody (run : PhaseRun) : Phase → Step Unit
  | .prepare => prepare run
  | .complete => executeComplete run
  | _ => middleBody run

/-- The steps of `execute_phase_typed`. -/
def phaseSteps (phase : Phase) (run : PhaseRun) : Step Unit := do
  writeStatus phase run.startWrite (startStatus phase)
  phaseBody run phase
  writeStatus phase run.completionWrite (completion phase)

/-- `execute_phase_typed`, with the texts of its errors. -/
def executePhase (phase : Phase) (run : PhaseRun) : Step Unit := fun s =>
  if run.cancelled then
    (.error (.failed ("native installer phase " ++ phaseDebug phase ++
      " was cancelled before execution")), s)
  else
    match phaseSteps phase run s with
    | (.error (.failed message), s') =>
        (.error (.failed ("native installer phase " ++ phaseDebug phase ++ " failed: " ++ message)),
          s')
    | (result, s') => (result, s')

/-- The answers to the writes of a terminal record. -/
structure TerminalRun where
  transactionWrite : Outcome := .done
  summaryWrite : Outcome := .done

/-- `persist_failure_summary`. -/
def persistFailureSummary (message : String) (outcome : Outcome) : Step Unit := do
  let s ← Action.get
  ignoringFailure (writeRequest s.failurePath
    { s.transaction with status := "failed", lifecycle := "failed", message, recoveryRequired := true }
    outcome)

/-- `record_cancelled` and `record_failed`, which differ in their message. -/
def recordTerminal (phase : Phase) (message : String) (run : TerminalRun) : Step Unit := do
  ignoringFailure (writeTransaction "failed" phase "failed" message run.transactionWrite)
  persistFailureSummary message run.summaryWrite

/-! ### What a call writes -/

/-- Whether the file was replaced. -/
def replaces : Outcome → Bool
  | .done => true
  | .failed applied _ => applied
  | .crashed applied => applied

def survives : Outcome → Bool
  | .crashed _ => false
  | _ => true

/-- A persisted status that the rescue mode knows and that may follow the one before it. -/
def Lawful (entry : String × String) : Prop :=
  (rescueGuidance (some entry.2)).severity ≠ "unknown" ∧ statusTransition entry.1 entry.2 = true

instance (entry : String × String) : Decidable (Lawful entry) := inferInstanceAs (Decidable (_ ∧ _))

theorem statusTransition_failed (current : String) : statusTransition current "failed" = true := by
  unfold statusTransition
  split_ifs with hsame hfailed
  · rfl
  · rfl
  · exact absurd rfl hfailed

theorem lawful_failed (before : String) : Lawful (before, "failed") := by
  refine ⟨?_, statusTransition_failed before⟩
  show (rescueGuidance (some "failed")).severity ≠ "unknown"
  decide

theorem statusTransition_self (status : String) : statusTransition status status = true := by
  unfold statusTransition
  rw [if_pos (beq_self_eq_true status)]

/-- What a call adds: entries with a property, from which the files come. -/
structure Grown (Q : String × String → Prop) (s s' : Session) : Prop where
  path : s'.path = s.path
  failurePath : s'.failurePath = s.failurePath
  entries : ∃ added, s'.persisted = s.persisted ++ added ∧ (∀ entry ∈ added, Q entry) ∧
    ∀ path, statusAt s'.files path = statusAt s.files path ∨
      ∃ entry ∈ added, entry.2 = statusAt s'.files path

instance (Q : String × String → Prop) : Std.Refl (Grown Q) :=
  ⟨fun s => ⟨rfl, rfl, [], by simp, by simp, fun path => .inl rfl⟩⟩

instance (Q : String × String → Prop) : IsTrans Session (Grown Q) := by
  refine ⟨fun s₁ s₂ s₃ h h' => ⟨h'.path.trans h.path, h'.failurePath.trans h.failurePath, ?_⟩⟩
  obtain ⟨added, heq, hall, hfiles⟩ := h.entries
  obtain ⟨added', heq', hall', hfiles'⟩ := h'.entries
  refine ⟨added ++ added', by rw [heq', heq, List.append_assoc], fun entry hentry => ?_,
    fun path => ?_⟩
  · rcases List.mem_append.1 hentry with hold | hnew
    · exact hall entry hold
    · exact hall' entry hnew
  · rcases hfiles' path with hsame | ⟨entry, hentry, hstatus⟩
    · rcases hfiles path with hsame' | ⟨entry, hentry, hstatus⟩
      · exact .inl (hsame.trans hsame')
      · exact .inr ⟨entry, List.mem_append_left _ hentry, hstatus.trans hsame.symm⟩
    · exact .inr ⟨entry, List.mem_append_right _ hentry, hstatus⟩

theorem Grown.mono {Q Q' : String × String → Prop} {s s' : Session} (h : Grown Q s s')
    (himp : ∀ entry, Q entry → Q' entry) : Grown Q' s s' := by
  obtain ⟨added, heq, hall, hfiles⟩ := h.entries
  exact ⟨h.path, h.failurePath, added, heq, fun entry hentry => himp entry (hall entry hentry),
    hfiles⟩

@[simp] theorem statusAt_update_self (files : String → Option TransactionState) (path : String)
    (state : TransactionState) :
    statusAt (Function.update files path (some state)) path = state.status := by
  simp [statusAt]

/-- A write adds the entry it makes, if it replaces the file. -/
theorem writeRequest_grown {Q : String × String → Prop} (path : String) (state : TransactionState)
    (outcome : Outcome) (s : Session)
    (hQ : replaces outcome = true → Q (statusAt s.files path, state.status)) :
    Grown Q s (writeRequest path state outcome s).2 := by
  have hreplaced : Q (statusAt s.files path, state.status) →
      Grown Q s { s with
        files := Function.update s.files path (some state)
        persisted := s.persisted ++ [(statusAt s.files path, state.status)] } := fun hentry => by
    refine ⟨rfl, rfl, _, rfl, by simpa using hentry, fun other => ?_⟩
    by_cases hother : other = path
    · subst hother
      right
      simp
    · left
      simp [statusAt, hother]
  have hkept : Grown Q s s := refl_of (Grown Q) s
  cases outcome with
  | done => exact hreplaced (hQ rfl)
  | failed applied message =>
    cases applied with
    | true => exact hreplaced (hQ rfl)
    | false => exact hkept
  | crashed applied =>
    cases applied with
    | true => exact hreplaced (hQ rfl)
    | false => exact hkept

/-- The transaction and the file of the job have a status. -/
structure Steady (s : Session) (status : String) : Prop where
  transaction : s.transaction.status = status
  file : statusAt s.files s.path = status

/-- What keeping a state and writing it does. -/
theorem writeState_grown {Q : String × String → Prop} (f : TransactionState → TransactionState)
    (outcome : Outcome) (s : Session)
    (hQ : replaces outcome = true → Q (statusAt s.files s.path, (f s.transaction).status)) :
    Grown Q s (writeState f outcome s).2 := by
  have hwrite := writeRequest_grown s.path (f s.transaction) outcome
    { s with transaction := f s.transaction } hQ
  exact ⟨hwrite.path, hwrite.failurePath, hwrite.entries⟩

/-- A write that succeeded leaves the transaction and the file in step. -/
theorem writeState_steady {f : TransactionState → TransactionState} {outcome : Outcome}
    {s s' : Session} (h : writeState f outcome s = (.ok (), s')) :
    outcome = .done ∧ Steady s' (f s.transaction).status := by
  change writeRequest s.path (f s.transaction) outcome { s with transaction := f s.transaction } = _
    at h
  cases outcome with
  | done =>
    rw [writeRequest, Prod.mk.injEq] at h
    rw [← h.2]
    exact ⟨rfl, rfl, by simp⟩
  | failed applied message => simp [writeRequest] at h
  | crashed applied => simp [writeRequest] at h

/-- A write that keeps the status leaves a steady session steady however it ends. -/
theorem writeState_keeps {f : TransactionState → TransactionState} {outcome : Outcome}
    {s : Session} {status : String} (h : Steady s status)
    (hf : (f s.transaction).status = s.transaction.status) :
    Steady (writeState f outcome s).2 status := by
  change Steady (writeRequest s.path (f s.transaction) outcome
    { s with transaction := f s.transaction }).2 status
  have hstatus : (f s.transaction).status = status := hf.trans h.transaction
  cases outcome with
  | done => exact ⟨hstatus, by simpa [writeRequest] using hstatus⟩
  | failed applied message =>
    cases applied with
    | true => exact ⟨hstatus, by simpa [writeRequest] using hstatus⟩
    | false => exact ⟨hstatus, h.file⟩
  | crashed applied =>
    cases applied with
    | true => exact ⟨hstatus, by simpa [writeRequest] using hstatus⟩
    | false => exact ⟨hstatus, h.file⟩

/-- A record keeps the status. -/
theorem append_status (state : TransactionState) (record : Record) :
    (state.append record).status = state.status := by
  cases record <;> rfl

theorem appendRecord_spec {s : Session} {status : String} (h : Steady s status) (record : Record)
    (outcome : Outcome) :
    Grown (· = (status, status)) s (appendRecord record outcome s).2 ∧
      Steady (appendRecord record outcome s).2 status := by
  refine ⟨writeState_grown _ outcome s fun _ => ?_, writeState_keeps h (append_status _ record)⟩
  rw [append_status, h.transaction, h.file]

theorem ignoringFailure_snd (x : Step Unit) (s : Session) : (ignoringFailure x s).2 = (x s).2 := by
  unfold ignoringFailure
  split
  · rename_i hx
    rw [hx]
  · rename_i hx
    rw [hx]

theorem ignoringFailure_appendRecord (record : Record) (outcome : Outcome) (s : Session) :
    (ignoringFailure (appendRecord record outcome) s).1 = .ok () ↔ survives outcome = true := by
  cases outcome with
  | done => exact ⟨fun _ => rfl, fun _ => rfl⟩
  | failed applied message => exact ⟨fun _ => rfl, fun _ => rfl⟩
  | crashed applied =>
    constructor
    · intro h
      cases h
    · intro h
      cases h

/-- The records of a body keep the status, and they are all made unless the process ends. -/
theorem recordAll_spec {s : Session} {status : String} (h : Steady s status)
    (records : List (Record × Outcome)) :
    (Grown (· = (status, status)) s (recordAll records s).2 ∧ Steady (recordAll records s).2 status) ∧
      ((recordAll records s).1 = .ok () ↔ ∀ entry ∈ records, survives entry.2 = true) := by
  induction records generalizing s with
  | nil => exact ⟨⟨refl_of (Grown _) s, h⟩, by simp [recordAll]⟩
  | cons entry records ih =>
    obtain ⟨record, outcome⟩ := entry
    obtain ⟨hgrown, hsteady⟩ := appendRecord_spec h record outcome
    have hfirst := ignoringFailure_appendRecord record outcome s
    rw [recordAll, Action.bind_apply]
    rw [← ignoringFailure_snd] at hgrown hsteady
    generalize ignoringFailure (appendRecord record outcome) s = first at hgrown hsteady hfirst ⊢
    obtain ⟨result, s₁⟩ := first
    rw [List.forall_mem_cons, ← hfirst]
    cases result with
    | ok _ =>
      obtain ⟨⟨hgrown', hsteady'⟩, hrest⟩ := ih hsteady
      exact ⟨⟨IsTrans.trans _ _ _ hgrown hgrown', hsteady'⟩, fun hok => ⟨rfl, hrest.1 hok⟩,
        fun hall => hrest.2 hall.2⟩
    | error stop => exact ⟨⟨hgrown, hsteady⟩, by simp⟩

theorem ofResult_apply (result : Except String Unit) (s : Session) :
    (ofResult result s).2 = s ∧ ((ofResult result s).1 = .ok () ↔ result = .ok ()) := by
  cases result with
  | ok _ => exact ⟨rfl, by simp [ofResult, Except.mapError]⟩
  | error message => exact ⟨rfl, by simp [ofResult, Except.mapError]⟩

/-- A phase in between gets to the end of its body. -/
def PhaseRun.BodyDone (run : PhaseRun) : Prop :=
  (∀ entry ∈ run.records, survives entry.2 = true) ∧ run.result = .ok ()

theorem middleBody_spec {s : Session} {status : String} (h : Steady s status) (run : PhaseRun) :
    (Grown (· = (status, status)) s (middleBody run s).2 ∧ Steady (middleBody run s).2 status) ∧
      ((middleBody run s).1 = .ok () ↔ run.BodyDone) := by
  obtain ⟨⟨hgrown, hsteady⟩, hok⟩ := recordAll_spec h run.records
  unfold middleBody PhaseRun.BodyDone
  rw [Action.bind_apply, ← hok]
  generalize recordAll run.records s = recorded at hgrown hsteady ⊢
  obtain ⟨result, s₁⟩ := recorded
  cases result with
  | ok _ =>
    obtain ⟨hsame, hresult⟩ := ofResult_apply run.result s₁
    dsimp only
    rw [hsame, hresult]
    exact ⟨⟨hgrown, hsteady⟩, fun hr => ⟨rfl, hr⟩, fun hr => hr.2⟩
  | error stop => exact ⟨⟨hgrown, hsteady⟩, by simp⟩

/-- The body of the first phase. -/
theorem prepare_spec {s : Session} {status : String} (h : Steady s status) (run : PhaseRun) :
    Grown (· = (status, status)) s (prepare run s).2 ∧ Steady (prepare run s).2 status := by
  obtain ⟨hgrown, hsteady⟩ :=
    appendRecord_spec h (.check ⟨"power", run.power.status, run.power.detail⟩) run.powerWrite
  unfold prepare
  rw [Action.bind_apply]
  generalize appendRecord (.check ⟨"power", run.power.status, run.power.detail⟩) run.powerWrite s =
    first at hgrown hsteady
  obtain ⟨result, s₁⟩ := first
  cases result with
  | error stop => exact ⟨hgrown, hsteady⟩
  | ok _ =>
    dsimp only
    split_ifs with hpower
    · exact ⟨hgrown, hsteady⟩
    · obtain ⟨hgrown', hsteady'⟩ := appendRecord_spec hsteady
        (.check ⟨"native_plan", "pass", "Typed Rust installer plan validated"⟩) run.planWrite
      exact ⟨IsTrans.trans _ _ _ hgrown hgrown', hsteady'⟩

/-! ### A phase -/

/-- The status with which a phase begins. -/
def entersWith : Phase → String
  | .prepare => ""
  | .storage => "prepared"
  | .image => "prepared"
  | .configure => "image_complete"
  | .secureBoot => "configure_complete"
  | .complete => "secure_boot_staged"

/-- The status with which a phase ends. -/
def leavesWith : Phase → String
  | .prepare => "prepared"
  | .storage => "prepared"
  | .image => "image_complete"
  | .configure => "configure_complete"
  | .secureBoot => "secure_boot_staged"
  | .complete => "complete"

/-- What a phase may persist: lawful statuses, the first one over whatever the file held, and the
one of the image phase with its successor. -/
inductive Expected (phase : Phase) (run : PhaseRun) (file : String) : String × String → Prop
  | lawful {entry : String × String} (h : Lawful entry) : Expected phase run file entry
  | started (hphase : phase = .prepare) (hstart : replaces run.startWrite = true) :
      Expected phase run file (file, "started")
  | image (hphase : phase = .image) (hbody : run.BodyDone)
      (hcompletion : replaces run.completionWrite = true) :
      Expected phase run file ("prepared", "image_complete")
  | configure (hphase : phase = .configure) :
      Expected phase run file ("image_complete", "configure_started")

/-- The three steps of a phase, one after the other. -/
theorem phaseSteps_grown {Q : String × String → Prop} {phase : Phase} {run : PhaseRun}
    {s : Session} (status : String) (P : Prop)
    (hstart : Grown Q s (writeStatus phase run.startWrite (startStatus phase) s).2)
    (hworks : ∀ s₁, writeStatus phase run.startWrite (startStatus phase) s = (.ok (), s₁) →
      Steady s₁ status)
    (hbody : ∀ s₁, Steady s₁ status → Grown Q s₁ (phaseBody run phase s₁).2)
    (hdone : ∀ s₁ s₂, Steady s₁ status → phaseBody run phase s₁ = (.ok (), s₂) →
      Steady s₂ status ∧ P)
    (hcompletion : ∀ s₂, Steady s₂ status → P →
      Grown Q s₂ (writeStatus phase run.completionWrite (completion phase) s₂).2) :
    Grown Q s (phaseSteps phase run s).2 := by
  unfold phaseSteps
  refine Action.Frame.bind_from hstart fun _ s₁ h₁ => ?_
  have hsteady := hworks s₁ h₁
  refine Action.Frame.bind_from (hbody s₁ hsteady) fun _ s₂ h₂ => ?_
  obtain ⟨hsteady', hP⟩ := hdone s₁ s₂ hsteady h₂
  exact hcompletion s₂ hsteady' hP

theorem writeStatus_grown {Q : String × String → Prop} {s : Session} {before status : String}
    (h : Steady s before) (phase : Phase) (outcome : Outcome) (message : String)
    (hQ : replaces outcome = true → Q (before, status)) :
    Grown Q s (writeStatus phase outcome (some (status, message)) s).2 :=
  writeState_grown _ outcome s (by rw [h.file]; exact hQ)

theorem writeStatus_steady {s s' : Session} {phase : Phase} {outcome : Outcome}
    {status message : String}
    (h : writeStatus phase outcome (some (status, message)) s = (.ok (), s')) : Steady s' status :=
  (writeState_steady (f := fun state => state.advance status phase "installing" message) h).2

theorem lawful_self {status : String} (h : (rescueGuidance (some status)).severity ≠ "unknown") :
    Lawful (status, status) := ⟨h, statusTransition_self status⟩

/-- A body in between, when its status is one the rescue mode knows. -/
theorem middleBody_grown {Q : String × String → Prop} {s : Session} {status : String}
    (h : Steady s status) (run : PhaseRun) (hQ : Q (status, status)) :
    Grown Q s (middleBody run s).2 :=
  (middleBody_spec h run).1.1.mono fun entry hentry => by
    rw [hentry]
    exact hQ

theorem middleBody_done {s s' : Session} {status : String} {run : PhaseRun} (h : Steady s status)
    (hok : middleBody run s = (.ok (), s')) : Steady s' status ∧ run.BodyDone := by
  obtain ⟨⟨-, hsteady⟩, hdone⟩ := middleBody_spec h run
  rw [hok] at hsteady hdone
  exact ⟨hsteady, hdone.1 rfl⟩

theorem phaseSteps_expected {phase : Phase} {s : Session}
    (h : phase = .prepare ∨ Steady s (entersWith phase)) (run : PhaseRun) :
    Grown (Expected phase run (statusAt s.files s.path)) s (phaseSteps phase run s).2 := by
  have hin : phase ≠ .prepare → Steady s (entersWith phase) := fun hne => h.resolve_left hne
  cases phase with
  | prepare =>
    refine phaseSteps_grown "started" True (writeState_grown _ _ s fun hwrite => .started rfl hwrite)
      (fun s₁ h₁ => writeStatus_steady h₁) (fun s₁ h₁ => ?_) (fun s₁ s₂ h₁ h₂ => ⟨?_, trivial⟩)
      (fun s₂ h₂ _ => writeStatus_grown h₂ _ _ _ fun _ => .lawful (by decide))
    · refine (prepare_spec h₁ run).1.mono fun entry hentry => .lawful ?_
      rw [hentry]
      decide
    · have hsteady := (prepare_spec h₁ run).2
      rwa [show prepare run s₁ = (.ok (), s₂) from h₂] at hsteady
  | storage =>
    refine phaseSteps_grown "prepared" run.BodyDone (refl_of (Grown _) s) (fun s₁ h₁ => ?_)
      (fun s₁ h₁ => middleBody_grown h₁ run (.lawful (by decide)))
      (fun s₁ s₂ h₁ h₂ => middleBody_done h₁ h₂) (fun s₂ _ _ => refl_of (Grown _) s₂)
    cases h₁
    exact hin nofun
  | image =>
    refine phaseSteps_grown "prepared" run.BodyDone (refl_of (Grown _) s) (fun s₁ h₁ => ?_)
      (fun s₁ h₁ => middleBody_grown h₁ run (.lawful (by decide)))
      (fun s₁ s₂ h₁ h₂ => middleBody_done h₁ h₂)
      (fun s₂ h₂ hbody => writeStatus_grown h₂ _ _ _ fun hwrite => .image rfl hbody hwrite)
    cases h₁
    exact hin nofun
  | configure =>
    exact phaseSteps_grown "configure_started" run.BodyDone
      (writeStatus_grown (hin nofun) _ _ _ fun _ => .configure rfl)
      (fun s₁ h₁ => writeStatus_steady h₁)
      (fun s₁ h₁ => middleBody_grown h₁ run (.lawful (by decide)))
      (fun s₁ s₂ h₁ h₂ => middleBody_done h₁ h₂)
      (fun s₂ h₂ _ => writeStatus_grown h₂ _ _ _ fun _ => .lawful (by decide))
  | secureBoot =>
    refine phaseSteps_grown "configure_complete" run.BodyDone (refl_of (Grown _) s) (fun s₁ h₁ => ?_)
      (fun s₁ h₁ => middleBody_grown h₁ run (.lawful (by decide)))
      (fun s₁ s₂ h₁ h₂ => middleBody_done h₁ h₂)
      (fun s₂ h₂ _ => writeStatus_grown h₂ _ _ _ fun _ => .lawful (by decide))
    cases h₁
    exact hin nofun
  | complete =>
    have hsteady := hin nofun
    unfold phaseSteps
    refine Action.Frame.bind_from (refl_of (Grown _) s) fun _ s₁ h₁ => ?_
    cases h₁
    refine Action.Frame.bind_from ?_ fun _ s₂ _ => refl_of (Grown _) s₂
    refine Action.Frame.bind_from ?_ fun _ s₂ h₂ => ?_
    · rw [(ofResult_apply run.result s).1]
      exact refl_of (Grown _) s
    · have hsame := (ofResult_apply run.result s).1
      rw [h₂] at hsame
      subst hsame
      exact writeState_grown _ _ _ fun _ => by
        rw [hsteady.file]
        exact .lawful (show Lawful ("secure_boot_staged", "complete") by decide)

/-- A phase that succeeds leaves the session with its status. -/
theorem phaseSteps_leaves {phase : Phase} {s s' : Session}
    (h : phase = .prepare ∨ Steady s (entersWith phase)) {run : PhaseRun}
    (hok : phaseSteps phase run s = (.ok (), s')) : Steady s' (leavesWith phase) := by
  have hin : phase ≠ .prepare → Steady s (entersWith phase) := fun hne => h.resolve_left hne
  unfold phaseSteps at hok
  obtain ⟨⟨⟩, s₁, h₁, hok⟩ := Action.bind_eq_ok.1 hok
  obtain ⟨⟨⟩, s₂, h₂, h₃⟩ := Action.bind_eq_ok.1 hok
  cases phase with
  | prepare => exact writeStatus_steady h₃
  | storage =>
    cases h₁
    cases h₃
    exact (middleBody_done (hin nofun) h₂).1
  | image => exact writeStatus_steady h₃
  | configure => exact writeStatus_steady h₃
  | secureBoot => exact writeStatus_steady h₃
  | complete =>
    cases h₃
    obtain ⟨⟨⟩, s₃, -, hwrite⟩ := Action.bind_eq_ok.1 h₂
    exact (writeState_steady (f := fun state => state.advance "complete" .complete "done" _) hwrite).2

/-- A call that is not cancelled is its steps, up to the text of an error. -/
theorem executePhase_apply {phase : Phase} {run : PhaseRun} (hlive : run.cancelled = false)
    (s : Session) : (executePhase phase run s).2 = (phaseSteps phase run s).2 ∧
      ((executePhase phase run s).1 = .ok () ↔ (phaseSteps phase run s).1 = .ok ()) := by
  unfold executePhase
  rw [if_neg (by simp [hlive])]
  split
  · rename_i hsteps
    rw [hsteps]
    simp
  · rename_i hsteps
    rw [hsteps]
    simp

theorem executePhase_expected {phase : Phase} {s : Session}
    (h : phase = .prepare ∨ Steady s (entersWith phase)) (run : PhaseRun) :
    Grown (fun entry => run.cancelled = false ∧
      Expected phase run (statusAt s.files s.path) entry) s (executePhase phase run s).2 := by
  cases hlive : run.cancelled with
  | true =>
    have hstay : (executePhase phase run s).2 = s := by
      unfold executePhase
      rw [if_pos hlive]
    rw [hstay]
    exact refl_of (Grown _) s
  | false =>
    rw [(executePhase_apply hlive s).1]
    exact (phaseSteps_expected h run).mono fun entry hentry => ⟨rfl, hentry⟩

theorem executePhase_leaves {phase : Phase} {s s' : Session}
    (h : phase = .prepare ∨ Steady s (entersWith phase)) {run : PhaseRun}
    (hok : executePhase phase run s = (.ok (), s')) : Steady s' (leavesWith phase) := by
  cases hlive : run.cancelled with
  | true =>
    unfold executePhase at hok
    rw [if_pos hlive] at hok
    cases hok
  | false =>
    obtain ⟨hstate, hresult⟩ := @executePhase_apply phase run hlive s
    rw [hok] at hstate hresult
    exact phaseSteps_leaves h (Prod.ext (hresult.1 rfl) hstate.symm)

/-- The records of a job that has ended are lawful. -/
theorem recordTerminal_grown (phase : Phase) (message : String) (run : TerminalRun) (s : Session) :
    Grown Lawful s (recordTerminal phase message run s).2 := by
  unfold recordTerminal persistFailureSummary
  refine Action.Frame.bind_from ?_ fun _ s₁ _ => ?_
  · rw [ignoringFailure_snd]
    exact writeState_grown _ _ s fun _ => lawful_failed _
  · refine Action.Frame.bind_from (refl_of (Grown _) s₁) fun s₂ s₃ _ => ?_
    rw [ignoringFailure_snd]
    exact writeRequest_grown _ _ _ s₃ fun _ => lawful_failed _

theorem writeRequest_mem {path : String} {state : TransactionState} {outcome : Outcome}
    (h : replaces outcome = true) (s : Session) :
    (statusAt s.files path, state.status) ∈ (writeRequest path state outcome s).2.persisted := by
  cases outcome with
  | done => simp [writeRequest]
  | failed applied message =>
    cases applied with
    | true => simp [writeRequest]
    | false => cases h
  | crashed applied =>
    cases applied with
    | true => simp [writeRequest]
    | false => cases h

theorem Grown.subset {Q : String × String → Prop} {s s' : Session} (h : Grown Q s s')
    {entry : String × String} (hentry : entry ∈ s.persisted) : entry ∈ s'.persisted := by
  obtain ⟨added, heq, -⟩ := h.entries
  rw [heq]
  exact List.mem_append_left added hentry

/-- The first phase writes its status over whatever the file held. -/
theorem started_mem {run : PhaseRun} (hlive : run.cancelled = false)
    (hwrite : replaces run.startWrite = true) (s : Session) :
    (statusAt s.files s.path, "started") ∈ (executePhase .prepare run s).2.persisted := by
  rw [(executePhase_apply hlive s).1]
  unfold phaseSteps
  rw [Action.bind_apply]
  have hmem : (statusAt s.files s.path, "started") ∈
      (writeStatus .prepare run.startWrite (startStatus .prepare) s).2.persisted :=
    writeRequest_mem hwrite _
  split
  · rename_i s₁ hstart
    rw [hstart] at hmem
    have hsteady : Steady s₁ "started" := writeStatus_steady hstart
    refine Grown.subset (Q := fun _ => True) ?_ hmem
    refine Action.Frame.bind_from ((prepare_spec hsteady run).1.mono fun _ _ => trivial)
      fun _ s₂ _ => writeState_grown _ _ s₂ fun _ => trivial
  · rename_i hstart
    rw [hstart] at hmem
    exact hmem

/-- The image phase writes its status when it is done. -/
theorem image_mem {run : PhaseRun} {s : Session} (h : Steady s "prepared")
    (hlive : run.cancelled = false) (hbody : run.BodyDone)
    (hwrite : replaces run.completionWrite = true) :
    ("prepared", "image_complete") ∈ (executePhase .image run s).2.persisted := by
  rw [(executePhase_apply hlive s).1]
  obtain ⟨⟨-, hsteady⟩, hdone⟩ := middleBody_spec h run
  have hok : middleBody run s = (.ok (), (middleBody run s).2) := Prod.ext (hdone.2 hbody) rfl
  have hsteps : phaseSteps .image run s =
      writeStatus .image run.completionWrite (completion .image) (middleBody run s).2 := by
    show (middleBody run >>= fun _ =>
      writeStatus .image run.completionWrite (completion .image)) s = _
    rw [Action.bind_apply, hok]
  rw [hsteps]
  have hmem := @writeRequest_mem (middleBody run s).2.path
    ((middleBody run s).2.transaction.advance "image_complete" .image "installing"
      "Operating system image written") run.completionWrite hwrite
    { (middleBody run s).2 with
      transaction := (middleBody run s).2.transaction.advance "image_complete" .image "installing"
        "Operating system image written" }
  rw [hsteady.file] at hmem
  exact hmem

end Kyth.Transaction
