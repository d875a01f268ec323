import Mathlib.Data.List.Nodup
import Mathlib.Data.List.Infix
import Mathlib.Tactic

/-!
# Ingesting a telemetry file (`system/telemetry_writer.rs`)

`ingest_csv` looks for a session of the file, reads and parses the file, and then inserts a session and
its frames in one transaction. The session is inserted with `INSERT OR IGNORE`, and the frames are linked
to `last_insert_rowid`. That number belongs to the connection: an ignored insert leaves it at the row that
the connection inserted last, in whatever table, and a rollback does not take it back.

Of a row only the columns that link it are kept. A stored frame carries the file it was read from, which
is not a column. What the parser makes of a file is given.
-/

namespace Kyth.Telemetry

variable {φ : Type}

/-- `MAX_FRAMES_PER_SESSION`. -/
def maxFramesPerSession : ℕ := 36000

/-- A row of `sessions`. -/
structure SessionRow where
  id : ℕ
  sourceFile : String
  deriving DecidableEq, Repr

/-- A row of `frames`, and the file that the frame was read from. -/
structure FrameRow (φ : Type) where
  id : ℕ
  sessionId : ℕ
  frame : φ
  origin : String
  deriving DecidableEq, Repr

/-- The database: its two tables, and the largest id that each has given out (`sqlite_sequence`). -/
structure Database (φ : Type) where
  sessions : List SessionRow := []
  frames : List (FrameRow φ) := []
  sessionSeq : ℕ := 0
  frameSeq : ℕ := 0
  deriving DecidableEq, Repr

/-! ### The frames that are kept -/

/-- `Iterator::step_by`, after `wait` more elements: one of every `step` elements. -/
def stepFrom (step : ℕ) : ℕ → List φ → List φ
  | _, [] => []
  | 0, frame :: frames => frame :: stepFrom step (step - 1) frames
  | wait + 1, _ :: frames => stepFrom step wait frames

/-- The step of the loop over the frames. -/
def frameStep (count : ℕ) : ℕ :=
  max ((count + maxFramesPerSession - 1) / maxFramesPerSession) 1

/-- The frames of a file that are stored. -/
def storedFrames (frames : List φ) : List φ := stepFrom (frameStep frames.length) 0 frames

theorem length_stepFrom {step wait : ℕ} (hwait : wait < step) (frames : List φ) :
    (stepFrom step wait frames).length * step + wait ≤ frames.length + (step - 1) := by
  induction frames generalizing wait with
  | nil => simp only [stepFrom, List.length_nil]; omega
  | cons frame frames ih =>
    cases wait with
    | zero =>
      have hrest := ih (show step - 1 < step by omega)
      simp only [stepFrom, List.length_cons, Nat.succ_mul]
      omega
    | succ wait =>
      have hrest := ih (show wait < step by omega)
      simp only [stepFrom, List.length_cons]
      omega

/-- The step is large enough for the frames to fit. -/
theorem length_storedFrames_le (frames : List φ) :
    (storedFrames frames).length ≤ maxFramesPerSession := by
  have hlength := length_stepFrom (show 0 < frameStep frames.length from Nat.lt_of_lt_of_le
    Nat.one_pos (le_max_right _ _)) frames
  have hstep : frames.length ≤ frameStep frames.length * maxFramesPerSession := by
    have hdiv : (frames.length + maxFramesPerSession - 1) / maxFramesPerSession ≤
        frameStep frames.length := le_max_left _ _
    simp only [maxFramesPerSession] at hdiv ⊢
    omega
  have hpos : 1 ≤ frameStep frames.length := le_max_right _ _
  by_contra hmany
  have hmul : (maxFramesPerSession + 1) * frameStep frames.length ≤
      (stepFrom (frameStep frames.length) 0 frames).length * frameStep frames.length :=
    Nat.mul_le_mul_right _ (by rw [storedFrames] at hmany; omega)
  rw [Nat.succ_mul, Nat.mul_comm maxFramesPerSession] at hmul
  omega

theorem storedFrames_ne_nil {frames : List φ} (h : frames ≠ []) : storedFrames frames ≠ [] := by
  obtain ⟨frame, rest, rfl⟩ := List.exists_cons_of_ne_nil h
  rw [storedFrames, stepFrom]
  exact List.cons_ne_nil _ _

/-! ### The statements of the transaction -/

/-- `source_ingested`, and the duplicate check of `ingest_csv`. -/
def Database.sourceIngested (db : Database φ) (source : String) : Bool :=
  db.sessions.any (·.sourceFile == source)

/-- A session has the id. -/
def Database.hasSession (db : Database φ) (id : ℕ) : Bool := db.sessions.any (·.id == id)

/-- `INSERT OR IGNORE INTO sessions`: the database and the last row id of the connection. -/
def Database.insertSession (db : Database φ) (source : String) (lastRowid : ℕ) : Database φ × ℕ :=
  if db.sourceIngested source then (db, lastRowid)
  else
    ({ db with
      sessions := db.sessions ++ [⟨db.sessionSeq + 1, source⟩]
      sessionSeq := db.sessionSeq + 1 }, db.sessionSeq + 1)

/-- The row of the next frame. -/
def Database.pushFrame (db : Database φ) (session : ℕ) (source : String) (frame : φ) : Database φ :=
  { db with
    frames := db.frames ++ [⟨db.frameSeq + 1, session, frame, source⟩]
    frameSeq := db.frameSeq + 1 }

/-- The loop of `INSERT INTO frames`; with foreign keys a frame without its session is refused. -/
def insertFrames (foreignKeys : Bool) (session : ℕ) (source : String) :
    List φ → Database φ → ℕ → Except String (Database φ) × ℕ
  | [], db, lastRowid => (.ok db, lastRowid)
  | frame :: frames, db, lastRowid =>
    if foreignKeys && !db.hasSession session then
      (.error "could not insert telemetry frame: FOREIGN KEY constraint failed", lastRowid)
    else insertFrames foreignKeys session source frames (db.pushFrame session source frame)
      (db.frameSeq + 1)

/-- The transaction of `ingest_csv`: its result, the database and the last row id afterwards. An error
drops the transaction. -/
def ingestTransaction (foreignKeys : Bool) (source : String) (frames : List φ) (db : Database φ)
    (lastRowid : ℕ) : Except String Bool × Database φ × ℕ :=
  let (opened, sessionId) := db.insertSession source lastRowid
  if 0 < sessionId then
    match insertFrames foreignKeys sessionId source (storedFrames frames) opened sessionId with
    | (.error error, last) => (.error error, db, last)
    | (.ok filled, last) => (.ok true, filled, last)
  else (.ok false, opened, sessionId)

/-! ### Calls on several connections -/

/-- What is made of a file: it cannot be read, it is not a table of frames, or its frames. -/
inductive Csv (φ : Type)
  | failed (error : String)
  | malformed
  | rows (frames : List φ)

/-- A call that has passed the duplicate check and found frames. -/
structure Pending (φ : Type) where
  source : String
  frames : List φ
  frames_ne_nil : frames ≠ []

/-- A connection: the row it inserted last, and the call that it is in. -/
structure Connection (φ : Type) where
  lastRowid : ℕ
  call : Option (Pending φ)

/-- The result of a call, and whether it inserted a session. -/
structure Return where
  result : Except String Bool
  inserted : Bool

/-- The database, its connections and the calls that have returned. -/
structure Service (φ : Type) where
  db : Database φ
  connections : ℕ → Connection φ
  returns : List Return

/-- A step of a connection: the part of a call up to the transaction, the transaction, or an error of a
statement, which leaves some row id behind. -/
inductive Event (φ : Type)
  | check (c : ℕ) (source : String) (csv : Csv φ)
  | transact (c : ℕ)
  | fail (c : ℕ) (error : String) (lastRowid : ℕ)

/-- The part of `ingest_csv` before the transaction: the call has returned, or it goes on with frames.
`hasFps` says whether a frame has a positive rate: `stats` gives nothing without one. -/
def prepare (hasFps : φ → Bool) (db : Database φ) (source : String) (csv : Csv φ) :
    Except String Bool ⊕ Pending φ :=
  if db.sourceIngested source then .inl (.ok false)
  else
    match csv with
    | .failed error => .inl (.error error)
    | .malformed => .inl (.ok false)
    | .rows frames =>
      if h : frames.any hasFps then .inr ⟨source, frames, fun hnil => by simp [hnil] at h⟩
      else .inl (.ok false)

variable (foreignKeys : Bool) (hasFps : φ → Bool)

/-- An event; a connection that is not at its turn does nothing. -/
def Service.step (s : Service φ) : Event φ → Service φ
  | .check c source csv =>
    match (s.connections c).call with
    | some _ => s
    | none =>
      match prepare hasFps s.db source csv with
      | .inl result => { s with returns := ⟨result, false⟩ :: s.returns }
      | .inr call =>
        { s with
          connections :=
            Function.update s.connections c ⟨(s.connections c).lastRowid, some call⟩ }
  | .transact c =>
    match (s.connections c).call with
    | none => s
    | some call =>
      let (result, db, last) := ingestTransaction foreignKeys call.source call.frames s.db
        (s.connections c).lastRowid
      { db := db
        connections := Function.update s.connections c ⟨last, none⟩
        returns := ⟨result, decide (s.db.sessions.length < db.sessions.length)⟩ :: s.returns }
  | .fail c error lastRowid =>
    match (s.connections c).call with
    | none => s
    | some _ =>
      { s with
        connections := Function.update s.connections c ⟨lastRowid, none⟩
        returns := ⟨.error error, false⟩ :: s.returns }

/-- A whole run. -/
def Service.after (s : Service φ) (events : List (Event φ)) : Service φ :=
  events.foldl (Service.step foreignKeys hasFps) s

end Kyth.Telemetry
