import Kyth.Lib.Boundary
import Kyth.Lib.Json
import Kyth.Lib.LockedFile
import Kyth.Lib.Replay
import Kyth.Lib.Utf8Text

/-!
# The trusted executables (`exe_trust.rs`)

The runners that the user trusts files with, by the hash of the file, in one JSON file. `trust_file` and
`untrust_file` are programs of system calls that load the file, change one entry and replace the file under a
lock. `wp_callSteps` says that they keep to the lock, and `serve` is what a call does to the file alone.
-/

namespace Kyth.Trust

open Boundary Json LockedFile Str Utf8Text

/-- The entries by hash. -/
abbrev Store := AList fun _ : String => Value

/-- How the store is read from the text of its file, and written to one. -/
structure Format where
  parse : List Char → Option Store
  render : Store → List Char

/-- `RUNNER_BOTTLES`. -/
def runnerBottles : String := "bottles"

/-- `RUNNER_UMU`. -/
def runnerUmu : String := "umu"

/-- A call of `trust_file`, which reads the clock, or of `untrust_file`. -/
inductive Change
  | trust (sha256 name runner : String) (now : UInt64)
  | untrust (sha256 : String)
  deriving DecidableEq

/-! ### The calls -/

/-- `map_err` with a message in front. -/
def orFail {α : Type} (message : String) (x : Run UInt8 String α) : Run UInt8 String α :=
  tryCatch x fun e => throw (message ++ e)

/-- The message about a store that is no JSON map. -/
def corrupt : String :=
  "trust store is corrupt; refusing to modify it " ++
    "(back up or delete ~/.config/kyth/exe-trust.json to reset)"

/-- What `load_trust_strict` makes of the file. -/
def contents (format : Format) (file : Option (List UInt8)) : Except String Store :=
  match file with
  | none => .ok ∅
  | some bytes =>
      match decode bytes with
      | none => .error "could not read trust store: stream did not contain valid UTF-8"
      | some text =>
          match format.parse text with
          | some store => .ok store
          | none => .error corrupt

/-- `load_trust_strict`. -/
def loadTrustStrict (format : Format) : Run UInt8 String Store :=
  ExceptT.mk (.read fun
    | .ok file => .done (contents format file)
    | .error e => .done (.error ("could not read trust store: " ++ e)))

/-- `store_lock`; the lock is left when the call returns. -/
def storeLock : Run UInt8 String Unit := do
  orFail "could not create trust store: " Run.attempt
  orFail "could not lock trust store: " Run.attempt
  orFail "could not lock trust store: " Run.flock

/-- The bytes of a store. -/
def rendered (format : Format) (store : Store) : List UInt8 := encode (format.render store)

/-- `store_trust`. -/
def storeTrust (format : Format) (store : Store) : Run UInt8 String Unit := do
  orFail "could not write trust store: " Run.create
  orFail "could not write trust store: " (Run.write (rendered format store))
  orFail "could not write trust store: " Run.sync
  orFail "could not write trust store: " Run.rename
  ExceptT.mk (.syncDir fun _ => .done (.ok ()))

/-- The value of an entry. -/
def entry (name runner : String) (now : UInt64) : Value :=
  .object [("at", .nat now), ("name", .string name), ("runner", .string runner)]

/-- The checks of `trust_file` on its arguments. -/
def checkTrust (sha256 runner : String) : Except String Unit :=
  if runner ≠ runnerBottles ∧ runner ≠ runnerUmu then .error "unknown runner"
  else if byteLength sha256.toList ≠ 64 ∨ ¬ sha256.toList.all isAsciiHexdigit then
    .error "trust requires a full SHA-256 hex digest"
  else .ok ()

/-- `trust_file`. -/
def trustFile (format : Format) (sha256 name runner : String) (now : UInt64) : Run UInt8 String Unit :=
  match checkTrust sha256 runner with
  | .error message => throw message
  | .ok _ => do
      storeLock
      let store ← loadTrustStrict format
      storeTrust format (store.insert (toAsciiLowercase sha256) (entry name runner now))

/-- `untrust_file`. -/
def untrustFile (format : Format) (sha256 : String) : Run UInt8 String Unit := do
  storeLock
  let store ← loadTrustStrict format
  match store.lookup (toAsciiLowercase sha256) with
  | none => return
  | some _ =>
      orFail "could not write trust store: " (storeTrust format (store.erase (toAsciiLowercase sha256)))

/-- The program of a call. -/
def callSteps (format : Format) : Change → Proc UInt8 String (Except String Unit)
  | .trust sha256 name runner now => (trustFile format sha256 name runner now).run
  | .untrust sha256 => (untrustFile format sha256).run

/-- `trusted_runner`, which takes a store that cannot be read for an empty one. -/
def trustedRunner (format : Format) (file : Option (List UInt8)) (sha256 : String) : Option String :=
  let store := (contents format file).toOption.getD ∅
  ((store.lookup sha256).bind fun value => (value.get "runner").bind Value.asStr).filter fun runner =>
    runner = runnerBottles ∨ runner = runnerUmu

/-! ### The calls alone -/

/-- What a call does to the file when it runs alone: its answer, and what it writes. -/
def serve (format : Format) (change : Change) (file : Option (List UInt8)) :
    Except String Unit × Option (List UInt8) :=
  match change with
  | .trust sha256 name runner now =>
      match checkTrust sha256 runner, contents format file with
      | .ok _, .ok store =>
          (.ok (), some (rendered format (store.insert (toAsciiLowercase sha256) (entry name runner now))))
      | .error message, _ => (.error message, none)
      | .ok _, .error message => (.error message, none)
  | .untrust sha256 =>
      match contents format file with
      | .ok store =>
          match store.lookup (toAsciiLowercase sha256) with
          | none => (.ok (), none)
          | some _ => (.ok (), some (rendered format (store.erase (toAsciiLowercase sha256))))
      | .error message => (.error message, none)

/-- The edit of the table that a call makes. -/
def edit : Change → Replay.Edit String Value
  | .trust sha256 name runner now => .put (toAsciiLowercase sha256) (entry name runner now)
  | .untrust sha256 => .drop (toAsciiLowercase sha256)

/-! ### The calls keep to the lock -/

section Rules

variable {α β : Type} {format : Format} {ReadsFail : Prop}
  {serve : Option (List UInt8) → Except String β × Option (List UInt8)}
  {Q : Option (View UInt8 β) → Except String α → Prop} {w : Option (View UInt8 β)} {message : String}

theorem wp_orFail {x : Run UInt8 String α} :
    Wp ReadsFail serve Q (orFail message x).run w ↔
      Wp ReadsFail serve (fun w r => match r with
        | .ok a => Q w (.ok a)
        | .error e => Q w (.error (message ++ e))) x.run w := by
  refine wp_tryCatch.trans (iff_of_eq (congrArg (Wp ReadsFail serve · x.run w) ?_))
  funext w r
  cases r <;> rfl

/-- The lock is taken, or a system call fails before it is. -/
theorem wp_storeLock {Q : Option (View UInt8 β) → Except String Unit → Prop}
    (hfail : ∀ e, Q none (.error e)) (hok : ∀ store temp, Q (some { store, temp }) (.ok ())) :
    Wp ReadsFail serve Q storeLock.run none := by
  unfold storeLock
  rw [wp_run_bind, wp_orFail]
  intro answer
  cases answer with
  | error e => exact hfail _
  | ok _ =>
    show Wp ReadsFail serve Q (ExceptT.run _) none
    rw [wp_run_bind, wp_orFail]
    intro answer
    cases answer with
    | error e => exact hfail _
    | ok _ =>
      show Wp ReadsFail serve Q (ExceptT.run _) none
      rw [wp_orFail]
      exact ⟨rfl, fun e => hfail _, hok⟩

theorem wp_loadTrustStrict {Q : Option (View UInt8 β) → Except String Store → Prop} {v : View UInt8 β}
    (hfail : ∀ e, Q (some v) (.error e)) (hok : Q (some v) (contents format v.store)) :
    Wp ReadsFail serve Q (loadTrustStrict format).run (some v) :=
  ⟨fun _ _ => hfail _, hok⟩

/-- The store is replaced, or left as it is. -/
theorem wp_storeTrust {Q : Option (View UInt8 β) → Except String Unit → Prop} {v : View UInt8 β}
    {store : Store} {a : β} (hanswer : v.answer = none)
    (hserve : serve v.store = (.ok a, some (rendered format store)))
    (hfail : ∀ e temp, Q (some { v with temp }) (.error e))
    (hok : ∀ synced, Q (some ⟨some (rendered format store), none, some a, synced⟩) (.ok ())) :
    Wp ReadsFail serve Q (storeTrust format store).run (some v) := by
  unfold storeTrust
  rw [wp_run_bind, wp_orFail]
  refine ⟨v, rfl, fun e => hfail _ v.temp, ?_⟩
  show Wp ReadsFail serve Q (ExceptT.run _) _
  rw [wp_run_bind, wp_orFail]
  refine ⟨_, _, rfl, rfl, fun e temp => hfail _ temp, fun synced => ?_⟩
  show Wp ReadsFail serve Q (ExceptT.run _) _
  rw [wp_run_bind, wp_orFail]
  refine ⟨_, _, rfl, rfl, fun e => hfail _ _, ?_⟩
  show Wp ReadsFail serve Q (ExceptT.run _) _
  rw [wp_run_bind, wp_orFail]
  exact ⟨_, a, _, rfl, hanswer, rfl, hserve, fun e => hfail _ _, fun _ => hok _, hok _⟩

end Rules

/-- A call keeps to the lock, and one that fails has changed nothing. -/
theorem wp_callSteps (format : Format) (ReadsFail : Prop) (change : Change) :
    Wp ReadsFail (serve format change) (Served (serve format change) (fun _ => False) False)
      (callSteps format change) none := by
  cases change with
  | trust sha256 name runner now =>
    unfold callSteps trustFile
    dsimp only
    cases hcheck : checkTrust sha256 runner with
    | error message => exact ⟨message, rfl⟩
    | ok _ =>
      rw [wp_run_bind]
      refine wp_storeLock (fun e => ⟨e, rfl⟩) fun store temp => ?_
      dsimp only
      rw [wp_run_bind]
      refine wp_loadTrustStrict (fun e => .inl ⟨e, rfl⟩) ?_
      cases hcontents : contents format store with
      | error message => exact .inl ⟨message, rfl⟩
      | ok entries =>
        refine wp_storeTrust rfl ?_ (fun e temp => .inl ⟨e, rfl⟩) fun synced => .inl ⟨rfl, False.elim⟩
        simp [serve, hcheck, hcontents]
  | untrust sha256 =>
    unfold callSteps untrustFile
    dsimp only
    rw [wp_run_bind]
    refine wp_storeLock (fun e => ⟨e, rfl⟩) fun store temp => ?_
    dsimp only
    rw [wp_run_bind]
    refine wp_loadTrustStrict (fun e => .inl ⟨e, rfl⟩) ?_
    cases hcontents : contents format store with
    | error message => exact .inl ⟨message, rfl⟩
    | ok entries =>
      dsimp only
      cases hlookup : entries.lookup (toAsciiLowercase sha256) with
      | none => exact .inr ⟨(), rfl, by simp [serve, hcontents, hlookup]⟩
      | some value =>
        dsimp only
        rw [wp_orFail]
        refine wp_storeTrust rfl ?_ (fun _ _ => .inl ⟨_, rfl⟩) fun synced => .inl ⟨rfl, False.elim⟩
        simp [serve, hcontents, hlookup]

end Kyth.Trust
