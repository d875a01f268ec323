import Kyth.Telemetry.Ingest

/-!
# Sessions and frames after concurrent ingests

Two connections may both find that a file has no session yet. The second one's insert is ignored, and its
frames go to whatever session has the number of the row it inserted last. `correct_iff` says exactly which
runs keep every frame with the session of its file: those where no ignored insert meets a usable row id.
-/

namespace Kyth.Telemetry

variable {φ : Type}

/-- What should hold of the database: a file has one session, a frame belongs to the session of the file
it was read from, and no session has too many frames. The ids are those of a primary key. -/
structure Sound (db : Database φ) : Prop where
  sources : (db.sessions.map (·.sourceFile)).Nodup
  ids : (db.sessions.map (·.id)).Nodup
  given : ∀ session ∈ db.sessions, session.id ≤ db.sessionSeq
  linked : ∀ row ∈ db.frames,
    ∃ session ∈ db.sessions, session.id = row.sessionId ∧ session.sourceFile = row.origin
  few : ∀ id, db.frames.countP (·.sessionId == id) ≤ maxFramesPerSession

/-- The database is sound, and the calls that have returned `true` are those that inserted a session. -/
structure Correct (s : Service φ) : Prop where
  db : Sound s.db
  returns : ∀ r ∈ s.returns, r.result = .ok true ↔ r.inserted = true

section Statements

variable {db : Database φ} {source : String} {session last : ℕ} {foreignKeys : Bool} {frames : List φ}

theorem sourceIngested_iff : db.sourceIngested source = true ↔ source ∈ db.sessions.map (·.sourceFile) := by
  simp [Database.sourceIngested]

theorem hasSession_iff : db.hasSession session = true ↔ session ∈ db.sessions.map (·.id) := by
  simp [Database.hasSession]

/-- What the loop over the frames changes: it adds rows of the session and the file. -/
structure Filled (session : ℕ) (source : String) (count : ℕ) (db filled : Database φ) : Prop where
  sessions : filled.sessions = db.sessions
  sessionSeq : filled.sessionSeq = db.sessionSeq
  frames : ∃ rows, filled.frames = db.frames ++ rows ∧ rows.length = count ∧
    ∀ row ∈ rows, row.sessionId = session ∧ row.origin = source

theorem Filled.push {frame : φ} {count : ℕ} {filled : Database φ}
    (h : Filled session source count (db.pushFrame session source frame) filled) :
    Filled session source (count + 1) db filled := by
  obtain ⟨hsessions, hseq, rows, hframes, hlength, hrows⟩ := h
  refine ⟨hsessions, hseq, ⟨db.frameSeq + 1, session, frame, source⟩ :: rows, ?_, ?_, ?_⟩
  · rw [hframes, Database.pushFrame, List.append_assoc, List.singleton_append]
  · rw [List.length_cons, hlength]
  · intro row hrow
    rcases List.mem_cons.1 hrow with rfl | hrow
    · exact ⟨rfl, rfl⟩
    · exact hrows row hrow

/-- Without foreign keys, or with the session there, all frames are inserted. -/
theorem insertFrames_eq_ok (h : (foreignKeys && !db.hasSession session) = false) (source : String)
    (frames : List φ) (last : ℕ) :
    ∃ filled last', insertFrames foreignKeys session source frames db last = (.ok filled, last') ∧
      Filled session source frames.length db filled := by
  induction frames generalizing db last with
  | nil => exact ⟨db, last, rfl, rfl, rfl, [], by simp⟩
  | cons frame frames ih =>
    have hpush : (foreignKeys && !(db.pushFrame session source frame).hasSession session) = false := h
    obtain ⟨filled, last', hrun, hfilled⟩ := ih hpush (db.frameSeq + 1)
    refine ⟨filled, last', ?_, hfilled.push⟩
    rw [insertFrames, h, if_neg Bool.false_ne_true, hrun]

/-- With foreign keys the first frame without its session is refused. -/
theorem insertFrames_eq_error (h : (foreignKeys && !db.hasSession session) = true)
    (source : String) (hframes : frames ≠ []) (last : ℕ) :
    ∃ error, insertFrames foreignKeys session source frames db last = (.error error, last) := by
  obtain ⟨frame, rest, rfl⟩ := List.exists_cons_of_ne_nil hframes
  exact ⟨_, if_pos h⟩

/-- The database with a new session. -/
def Database.opened (db : Database φ) (source : String) : Database φ :=
  { db with
    sessions := db.sessions ++ [⟨db.sessionSeq + 1, source⟩]
    sessionSeq := db.sessionSeq + 1 }

/-- A transaction for a file without a session inserts it with its frames. -/
theorem ingestTransaction_of_new (h : db.sourceIngested source = false) (frames : List φ) (last : ℕ) :
    ∃ filled last', ingestTransaction foreignKeys source frames db last = (.ok true, filled, last') ∧
      Filled (db.sessionSeq + 1) source (storedFrames frames).length (db.opened source) filled := by
  have hinsert : db.insertSession source last = (db.opened source, db.sessionSeq + 1) := by
    rw [Database.insertSession, h, if_neg Bool.false_ne_true, Database.opened]
  have hthere : (db.opened source).hasSession (db.sessionSeq + 1) = true := by
    rw [hasSession_iff, Database.opened, List.map_append, List.mem_append]
    exact .inr List.mem_cons_self
  obtain ⟨filled, last', hrun, hfilled⟩ := insertFrames_eq_ok
    (show (foreignKeys && !(db.opened source).hasSession (db.sessionSeq + 1)) = false by
      rw [hthere, Bool.not_true, Bool.and_false])
    source (storedFrames frames) (db.sessionSeq + 1)
  refine ⟨filled, last', ?_, hfilled⟩
  simp only [ingestTransaction, hinsert, if_pos (Nat.succ_pos _), hrun]

/-- A transaction whose insert is ignored does nothing on a connection that has inserted nothing. -/
theorem ingestTransaction_of_unused (h : db.sourceIngested source = true) (frames : List φ) :
    ingestTransaction foreignKeys source frames db 0 = (.ok false, db, 0) := by
  simp only [ingestTransaction, Database.insertSession, h, if_true, lt_irrefl, if_false]

/-- A transaction whose insert is ignored is dropped when the foreign keys refuse the row id. -/
theorem ingestTransaction_of_refused (h : db.sourceIngested source = true) (hframes : frames ≠ [])
    (hlast : 0 < last) (hrefused : (foreignKeys && !db.hasSession last) = true) :
    ∃ error, ingestTransaction foreignKeys source frames db last = (.error error, db, last) := by
  obtain ⟨error, hrun⟩ := insertFrames_eq_error hrefused source (storedFrames_ne_nil hframes) last
  refine ⟨error, ?_⟩
  simp only [ingestTransaction, Database.insertSession, h, if_true, if_pos hlast, hrun]

/-- A transaction whose insert is ignored returns `true` when the row id is not refused. -/
theorem ingestTransaction_of_accepted (h : db.sourceIngested source = true) (frames : List φ)
    (hlast : 0 < last) (haccepted : (foreignKeys && !db.hasSession last) = false) :
    ∃ filled last', ingestTransaction foreignKeys source frames db last = (.ok true, filled, last') ∧
      filled.sessions = db.sessions := by
  obtain ⟨filled, last', hrun, hfilled⟩ := insertFrames_eq_ok haccepted source (storedFrames frames) last
  refine ⟨filled, last', ?_, hfilled.sessions⟩
  simp only [ingestTransaction, Database.insertSession, h, if_true, if_pos hlast, hrun]

/-- A new session with its frames keeps the database sound. -/
theorem Sound.filled (h : Sound db) (hnew : db.sourceIngested source = false) {count : ℕ}
    (hcount : count ≤ maxFramesPerSession) {filled : Database φ}
    (hfilled : Filled (db.sessionSeq + 1) source count (db.opened source) filled) :
    Sound filled := by
  obtain ⟨hsessions, hseq, rows, hframes, hlength, hrows⟩ := hfilled
  have hsource : source ∉ db.sessions.map (·.sourceFile) := by
    rw [← sourceIngested_iff, hnew]
    exact Bool.false_ne_true
  have hid : db.sessionSeq + 1 ∉ db.sessions.map (·.id) := by
    intro hmem
    obtain ⟨session, hsession, hsame⟩ := List.mem_map.1 hmem
    have := h.given session hsession
    omega
  refine ⟨?_, ?_, ?_, ?_, ?_⟩
  · rw [hsessions, Database.opened, List.map_append, List.map_singleton, ← List.concat_eq_append]
    exact h.sources.concat hsource
  · rw [hsessions, Database.opened, List.map_append, List.map_singleton, ← List.concat_eq_append]
    exact h.ids.concat hid
  · intro session hsession
    rw [hsessions, Database.opened] at hsession
    rw [hseq, Database.opened]
    rcases List.mem_append.1 hsession with hold | hold
    · have := h.given session hold
      show session.id ≤ db.sessionSeq + 1
      omega
    · rw [List.mem_singleton.1 hold]
  · intro row hrow
    rw [hframes] at hrow
    rw [hsessions]
    rcases List.mem_append.1 hrow with hold | hadded
    · obtain ⟨session, hsession, hlink⟩ := h.linked row hold
      exact ⟨session, List.mem_append_left _ hsession, hlink⟩
    · exact ⟨⟨db.sessionSeq + 1, source⟩, List.mem_append_right _ List.mem_cons_self,
        (hrows row hadded).1.symm, (hrows row hadded).2.symm⟩
  · intro id
    rw [hframes, List.countP_append]
    by_cases hnewid : id = db.sessionSeq + 1
    · -- The new session has no frames yet: an old frame belongs to an old session.
      have hold : (db.opened source).frames.countP (·.sessionId == id) = 0 := by
        rw [List.countP_eq_zero]
        intro row hrow hsame
        obtain ⟨session, hsession, hlink, -⟩ := h.linked row hrow
        have hle := h.given session hsession
        have hrowid : row.sessionId = id := by simpa using hsame
        omega
      have hadded : rows.countP (·.sessionId == id) ≤ rows.length := List.countP_le_length
      omega
    · have hadded : rows.countP (·.sessionId == id) = 0 := by
        rw [List.countP_eq_zero]
        intro row hrow hsame
        have hrowid : row.sessionId = id := by simpa using hsame
        exact hnewid (by rw [← hrowid, (hrows row hrow).1])
      rw [hadded, Nat.add_zero]
      exact h.few id

end Statements

/-! ### Whole runs -/

/-- At a transaction whose insert will be ignored, the connection has inserted nothing, or the foreign
keys refuse its last row id. -/
def CarefulAt (foreignKeys : Bool) (s : Service φ) : Event φ → Prop
  | .transact c =>
    ∀ call, (s.connections c).call = some call → s.db.sourceIngested call.source = true →
      (s.connections c).lastRowid = 0 ∨
        (foreignKeys && !s.db.hasSession (s.connections c).lastRowid) = true
  | _ => True

/-- All transactions of a run are careful. -/
def Careful (foreignKeys : Bool) (hasFps : φ → Bool) : Service φ → List (Event φ) → Prop
  | _, [] => True
  | s, event :: events =>
    CarefulAt foreignKeys s event ∧
      Careful foreignKeys hasFps (s.step foreignKeys hasFps event) events

section Runs

variable {foreignKeys : Bool} {hasFps : φ → Bool} {s : Service φ} {c : ℕ}

theorem not_forall_cons_of_wrong {r : Return} {returns : List Return} (hresult : r.result = .ok true)
    (hinserted : r.inserted = false) :
    ¬ ∀ r' ∈ r :: returns, r'.result = .ok true ↔ r'.inserted = true := by
  intro h
  have hr := (h r List.mem_cons_self).1 hresult
  rw [hinserted] at hr
  cases hr

/-- One more call that has returned something else than `true` and has inserted nothing. -/
theorem forall_cons_of_quiet {r : Return} {returns : List Return} (hresult : r.result ≠ .ok true)
    (hinserted : r.inserted = false)
    (h : ∀ r' ∈ returns, r'.result = .ok true ↔ r'.inserted = true) :
    ∀ r' ∈ r :: returns, r'.result = .ok true ↔ r'.inserted = true := by
  intro r' hr'
  rcases List.mem_cons.1 hr' with rfl | hold
  · rw [hinserted]
    exact ⟨fun htrue => absurd htrue hresult, fun hfalse => by cases hfalse⟩
  · exact h r' hold

theorem prepare_ne_ok_true {db : Database φ} {source : String} {csv : Csv φ}
    {result : Except String Bool} (h : prepare hasFps db source csv = .inl result) :
    result ≠ .ok true := by
  rintro rfl
  unfold prepare at h
  split at h
  · cases h
  · split at h
    · cases h
    · cases h
    · split at h <;> cases h

theorem step_transact {call : Pending φ} (hcall : (s.connections c).call = some call)
    {result : Except String Bool} {db : Database φ} {last : ℕ}
    (hrun : ingestTransaction foreignKeys call.source call.frames s.db (s.connections c).lastRowid =
      (result, db, last)) :
    s.step foreignKeys hasFps (.transact c) =
      { db := db
        connections := Function.update s.connections c ⟨last, none⟩
        returns := ⟨result, decide (s.db.sessions.length < db.sessions.length)⟩ :: s.returns } := by
  simp only [Service.step, hcall, hrun]

/-- A transaction that inserts its session keeps everything right. -/
theorem Correct.transact_new (h : Correct s) {call : Pending φ}
    (hcall : (s.connections c).call = some call) (hnew : s.db.sourceIngested call.source = false) :
    Correct (s.step foreignKeys hasFps (.transact c)) := by
  obtain ⟨filled, last, hrun, hfilled⟩ :
      ∃ filled last, ingestTransaction foreignKeys call.source call.frames s.db
        (s.connections c).lastRowid = (.ok true, filled, last) ∧ _ :=
    ingestTransaction_of_new hnew call.frames (s.connections c).lastRowid
  rw [step_transact hcall hrun]
  refine ⟨h.db.filled hnew (length_storedFrames_le call.frames) hfilled, ?_⟩
  intro r hr
  rcases List.mem_cons.1 hr with rfl | hold
  · have hgrown : s.db.sessions.length < filled.sessions.length := by
      rw [hfilled.sessions, Database.opened, List.length_append, List.length_singleton]
      omega
    exact ⟨fun _ => decide_eq_true hgrown, fun _ => rfl⟩
  · exact h.returns r hold

/-- A transaction that leaves the database alone and does not return `true` keeps everything right. -/
theorem Correct.transact_same (h : Correct s) {call : Pending φ}
    (hcall : (s.connections c).call = some call) {result : Except String Bool} {last : ℕ}
    (hrun : ingestTransaction foreignKeys call.source call.frames s.db (s.connections c).lastRowid =
      (result, s.db, last)) (hresult : result ≠ .ok true) :
    Correct (s.step foreignKeys hasFps (.transact c)) := by
  rw [step_transact hcall hrun]
  exact ⟨h.db, forall_cons_of_quiet hresult (decide_eq_false (lt_irrefl _)) h.returns⟩

/-- A transaction keeps everything right exactly when it is careful. -/
theorem correct_transact_iff (h : Correct s) :
    Correct (s.step foreignKeys hasFps (.transact c)) ↔ CarefulAt foreignKeys s (.transact c) := by
  cases hcall : (s.connections c).call with
  | none =>
    have hidle : s.step foreignKeys hasFps (.transact c) = s := by simp only [Service.step, hcall]
    rw [hidle]
    refine ⟨fun _ call hsome => ?_, fun _ => h⟩
    rw [hcall] at hsome
    cases hsome
  | some call =>
    have hcareful : CarefulAt foreignKeys s (.transact c) ↔
        (s.db.sourceIngested call.source = true → (s.connections c).lastRowid = 0 ∨
          (foreignKeys && !s.db.hasSession (s.connections c).lastRowid) = true) := by
      simp only [CarefulAt, hcall, Option.some.injEq, forall_eq']
    rw [hcareful]
    cases hingested : s.db.sourceIngested call.source with
    | false =>
      exact ⟨fun _ hfalse => absurd hfalse Bool.false_ne_true, fun _ => h.transact_new hcall hingested⟩
    | true =>
      by_cases hunused : (s.connections c).lastRowid = 0
      · have hrun : ingestTransaction foreignKeys call.source call.frames s.db
            (s.connections c).lastRowid = (.ok false, s.db, 0) := by
          rw [hunused, ingestTransaction_of_unused hingested]
        exact ⟨fun _ _ => .inl hunused, fun _ => h.transact_same hcall hrun (by simp)⟩
      · cases hrefused : foreignKeys && !s.db.hasSession (s.connections c).lastRowid with
        | true =>
          obtain ⟨error, hrun⟩ := ingestTransaction_of_refused hingested call.frames_ne_nil
            (Nat.pos_of_ne_zero hunused) hrefused
          exact ⟨fun _ _ => .inr rfl, fun _ => h.transact_same hcall hrun (by simp)⟩
        | false =>
          -- The frames go to the row that was inserted last, and no session has been inserted.
          obtain ⟨filled, last, hrun, hsessions⟩ := ingestTransaction_of_accepted hingested call.frames
            (Nat.pos_of_ne_zero hunused) hrefused
          constructor
          · intro hcorrect
            rw [step_transact hcall hrun] at hcorrect
            refine absurd hcorrect.returns (not_forall_cons_of_wrong rfl (decide_eq_false ?_))
            rw [hsessions]
            exact lt_irrefl _
          · intro hor
            rcases hor rfl with hzero | htrue
            · exact absurd hzero hunused
            · cases htrue

/-- An event keeps everything right exactly when it is careful. -/
theorem correct_step_iff (h : Correct s) (event : Event φ) :
    Correct (s.step foreignKeys hasFps event) ↔ CarefulAt foreignKeys s event := by
  cases event with
  | transact c => exact correct_transact_iff h
  | check c source csv =>
    refine ⟨fun _ => trivial, fun _ => ?_⟩
    rw [Service.step]
    split
    · exact h
    · split
      · rename_i result hprepare
        exact ⟨h.db, forall_cons_of_quiet (prepare_ne_ok_true hprepare) rfl h.returns⟩
      · exact ⟨h.db, h.returns⟩
  | fail c error lastRowid =>
    refine ⟨fun _ => trivial, fun _ => ?_⟩
    rw [Service.step]
    split
    · exact h
    · exact ⟨h.db, forall_cons_of_quiet (by simp) rfl h.returns⟩

end Runs

/-- From any database that is in order and for connections with any past: a run keeps the sessions, the
frames and the results right at every moment exactly when all its transactions are careful. -/
theorem correct_iff {foreignKeys : Bool} {hasFps : φ → Bool} {s : Service φ} (h : Correct s)
    (events : List (Event φ)) :
    (∀ done, done <+: events → Correct (s.after foreignKeys hasFps done)) ↔
      Careful foreignKeys hasFps s events := by
  induction events generalizing s with
  | nil =>
    refine ⟨fun _ => trivial, fun _ done hdone => ?_⟩
    rw [List.prefix_nil.1 hdone]
    exact h
  | cons event events ih =>
    constructor
    · intro hall
      have hfirst : Correct (s.step foreignKeys hasFps event) := hall [event] (by simp)
      refine ⟨(correct_step_iff h event).1 hfirst, (ih hfirst).1 fun done hdone => ?_⟩
      exact hall (event :: done) (List.cons_prefix_cons.2 ⟨rfl, hdone⟩)
    · rintro ⟨hevent, hevents⟩ done hdone
      have hfirst : Correct (s.step foreignKeys hasFps event) := (correct_step_iff h event).2 hevent
      cases done with
      | nil => exact h
      | cons first done =>
        obtain ⟨rfl, hrest⟩ := List.cons_prefix_cons.1 hdone
        exact (ih hfirst).2 hevents done hrest

/-! ### Two connections and one file -/

/-- A service whose connections have inserted nothing yet. -/
def newService : Service ℕ where
  db := {}
  connections _ := ⟨0, none⟩
  returns := []

theorem correct_newService : Correct newService where
  db := ⟨List.nodup_nil, List.nodup_nil, by simp [newService], by simp [newService],
    fun _ => Nat.zero_le _⟩
  returns := by simp [newService]

/-- Each of two connections ingests a file of its own; then both find a third file without a session. -/
def racingEvents : List (Event ℕ) :=
  [.check 0 "a.csv" (.rows [60]), .transact 0, .check 1 "b.csv" (.rows [61]), .transact 1,
    .check 0 "c.csv" (.rows [62]), .check 1 "c.csv" (.rows [62]), .transact 0, .transact 1]

/-- Two connections ingest a file each. -/
def separateEvents : List (Event ℕ) := racingEvents.take 4

/-- A frame, given by its rate, has a positive one. -/
def positiveRate (fps : ℕ) : Bool := decide (0 < fps)

theorem careful_separateEvents : Careful true positiveRate newService separateEvents := by
  refine ⟨trivial, ?_, trivial, ?_, trivial⟩
  · intro call hcall hingested
    cases hcall
    cases hingested
  · intro call hcall hingested
    cases hcall
    cases hingested

/-- Two files on two connections: everything stays right, and both sessions are stored. -/
theorem separateEvents_correct :
    (∀ done, done <+: separateEvents → Correct (newService.after true positiveRate done)) ∧
      (newService.after true positiveRate separateEvents).db.sessions = [⟨1, "a.csv"⟩, ⟨2, "b.csv"⟩] :=
  ⟨(correct_iff correct_newService separateEvents).2 careful_separateEvents, by decide⟩

/-- The second connection stores its frame of the third file in the session of the second file, and
returns `true` without having inserted a session. -/
theorem racing_frame_misplaced :
    (newService.after true positiveRate racingEvents).db.sessions =
        [⟨1, "a.csv"⟩, ⟨2, "b.csv"⟩, ⟨3, "c.csv"⟩] ∧
      (⟨4, 2, 62, "c.csv"⟩ : FrameRow ℕ) ∈ (newService.after true positiveRate racingEvents).db.frames ∧
      (⟨.ok true, false⟩ : Return) ∈ (newService.after true positiveRate racingEvents).returns ∧
      ¬ Correct (newService.after true positiveRate racingEvents) := by
  have hreturn : (⟨.ok true, false⟩ : Return) ∈
      (newService.after true positiveRate racingEvents).returns := List.mem_cons_self
  refine ⟨by decide, by decide, hreturn, fun h => ?_⟩
  have hwrong := (h.returns _ hreturn).1 rfl
  cases hwrong

end Kyth.Telemetry
