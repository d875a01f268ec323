import Kyth.AtomicIo.Steps
import Kyth.BootHealth.Coordinator
import Kyth.Lib.LockedRuns

/-!
# Concurrent transactions (`update_coordinator.rs`)

`transaction` as a program of system calls, of which any number run at once: it takes the lock, reads the state
file, and replaces it. `coordinator_serial` says that the calls of the coordinator take effect one after another,
each as the transaction that it is alone, through every interleaving, failed system call and power loss.
-/

namespace Kyth.BootHealth

open AtomicIo Json LockedFile

/-- `read_state`, for which a file that cannot be read is the empty state; `parse` is `serde_json::from_str`. -/
def readSteps (parse : List UInt8 → Option Value) : Run UInt8 String BootHealthState :=
  ExceptT.mk (.read fun
    | .ok file => .done (.ok (readState (file.bind parse)))
    | .error _ => .done (.ok {}))

/-- The message about a state that breaks the invariants. -/
def refusal (updated : BootHealthState) : String :=
  "refusing to persist invalid boot-health state: [" ++
    String.intercalate ", " (updated.invariants.map Str.debug) ++ "]"

/-- `UpdateCoordinator::transaction`; `render` is `serde_json::to_string_pretty` with a newline. The lock is left
when the call returns. -/
def transactionSteps (parse : List UInt8 → Option Value) (render : Value → List UInt8)
    (transform : BootHealthState → BootHealthState) : Run UInt8 String BootHealthState := do
  Run.attempt -- `create_dir_all`
  Run.attempt -- the lock file is opened
  Run.flock
  let current ← readSteps parse
  let updated := transform current
  if updated.invariants ≠ [] then throw (refusal updated)
  else
    atomicWriteBytes (render (document updated))
    return updated

/-- The program of a call of the coordinator. -/
def callSteps (parse : List UInt8 → Option Value) (render : Value → List UInt8) (t : Transition) :
    Proc UInt8 String (Except String BootHealthState) :=
  (transactionSteps parse render t.apply).run

/-- What a call does to the bytes of the file when it runs alone: its answer, and what it writes. -/
def serveCall (parse : List UInt8 → Option Value) (render : Value → List UInt8) (t : Transition)
    (file : Option (List UInt8)) : Except String BootHealthState × Option (List UInt8) :=
  match (call (file.bind parse) t).1 with
  | .ok updated => (.ok updated, some (render (document updated)))
  | .error message => (.error message, none)

variable {parse : List UInt8 → Option Value} {render : Value → List UInt8} {t : Transition}
  {file : Option (List UInt8)}

theorem serveCall_of_valid (h : (t.apply (readState (file.bind parse))).invariants = []) :
    serveCall parse render t file = (.ok (t.apply (readState (file.bind parse))),
      some (render (document (t.apply (readState (file.bind parse)))))) := by
  simp [serveCall, call, transaction, h]

/-- A call keeps to the lock. -/
theorem wp_callSteps (parse : List UInt8 → Option Value) (render : Value → List UInt8) (t : Transition) :
    Wp False (serveCall parse render t) (Served (serveCall parse render t) (fun _ => True) True)
      (callSteps parse render t) none := by
  unfold callSteps transactionSteps
  rw [wp_run_bind]
  intro answer
  cases answer with
  | error e => exact ⟨e, rfl⟩
  | ok _ =>
    show Wp _ _ (Served _ _ _) (ExceptT.run _) none
    rw [wp_run_bind]
    intro answer
    cases answer with
    | error e => exact ⟨e, rfl⟩
    | ok _ =>
      show Wp _ _ (Served _ _ _) (ExceptT.run _) none
      rw [wp_run_bind]
      refine ⟨rfl, fun e => ⟨e, rfl⟩, fun store temp => ?_⟩
      show Wp _ _ (Served _ _ _) (ExceptT.run _) _
      rw [wp_run_bind]
      refine ⟨fun hfails => hfails.elim, ?_⟩
      show Wp _ _ (Served _ _ _) (ExceptT.run _) _
      dsimp only
      split_ifs with hvalid
      · exact .inl ⟨_, rfl⟩
      · rw [ne_eq, not_not] at hvalid
        rw [wp_run_bind]
        refine wp_atomicWriteBytes rfl (serveCall_of_valid hvalid) ?_ (fun e temp => .inl ⟨e, rfl⟩)
          fun e => .inr ⟨e, rfl, trivial⟩
        exact .inl ⟨rfl, fun _ => rfl⟩

/-- What is written is parsed back, for the states that the calls of a log write. -/
def ReadsBack (parse : List UInt8 → Option Value) (render : Value → List UInt8) (log : List Transition) : Prop :=
  ∀ before t rest updated, log = before ++ t :: rest → (call (fileAfter before) t).1 = .ok updated →
    parse (render (document updated)) = some (document updated)

theorem ReadsBack.of_append {log later : List Transition} (h : ReadsBack parse render (log ++ later)) :
    ReadsBack parse render log := by
  rintro before t rest updated rfl
  exact h before t (rest ++ later) updated (by simp)

/-- On the values in the file a call is the transaction that it is alone. -/
theorem serveCall_spec (hread : ∀ updated, (call (file.bind parse) t).1 = .ok updated →
      parse (render (document updated)) = some (document updated)) :
    (serveCall parse render t file).1 = (call (file.bind parse) t).1 ∧
      ((serveCall parse render t file).2.or file).bind parse = (call (file.bind parse) t).2 := by
  by_cases hvalid : (t.apply (readState (file.bind parse))).invariants = []
  · have hcall : call (file.bind parse) t = (.ok (t.apply (readState (file.bind parse))),
        some (document (t.apply (readState (file.bind parse))))) := by
      simp [call, transaction, hvalid]
    rw [serveCall_of_valid hvalid, hcall]
    exact ⟨rfl, hread _ (by rw [hcall])⟩
  · simp [serveCall, call, transaction, hvalid]

theorem bind_after {log : List (ℕ × Transition)} (hread : ReadsBack parse render (log.map Prod.snd)) :
    (after (serveCall parse render) none log).bind parse = fileAfter (log.map Prod.snd) := by
  induction log using List.reverseRecOn with
  | nil => rfl
  | append_singleton log e ih =>
    rw [List.map_append] at hread
    have ih := ih hread.of_append
    rw [after_concat, (serveCall_spec fun updated hupdated => ?_).2, ih]
    · simp [fileAfter]
    · rw [ih] at hupdated
      exact hread _ _ [] _ rfl hupdated

/-- Whatever the interleaving of the coordinator's calls, and whichever system calls fail or are cut off by a
kill or a power loss, as long as a file that is there can be read: the state file is what the calls of the log
leave one after another, no call takes effect twice, and every call that returned a state is in the log and
returned the state of its transaction at its place. What is in the log stays in front of what comes later, unless
the power fails. -/
theorem coordinator_serial {s : LockedFile.System Transition UInt8 String BootHealthState}
    (h : Reachable (callSteps parse render) False none s)
    (hread : ReadsBack parse render (s.log.map Prod.snd)) :
    s.store.bind parse = fileAfter (s.log.map Prod.snd) ∧
      (s.log.map Prod.fst).Nodup ∧ (∀ e ∈ s.log, ∃ c, s.calls[e.1]? = some c ∧ c.op = e.2) ∧
      (∀ i c updated, s.calls[i]? = some c → c.state = .returned (.ok updated) →
        ∃ before rest, s.log = before ++ (i, c.op) :: rest ∧
          (call (fileAfter (before.map Prod.snd)) c.op).1 = .ok updated) ∧
      ∀ s', Relation.ReflTransGen (Step (callSteps parse render) False) s s' →
        s.outages < s'.outages ∨ s'.outages = s.outages ∧ s.log <+: s'.log := by
  have hlinear := linear_of_reachable (wp_callSteps parse render) h
  have honce := hlinear.once
  rw [List.map_append] at honce
  refine ⟨by rw [hlinear.store, bind_after hread], (List.nodup_append.1 honce).1,
    fun e he => hlinear.known e (List.mem_append_left _ he), fun i c updated hcall hstate => ?_,
    fun _ => log_prefix_of_steps⟩
  obtain ⟨-, earlier, change, hserve, hdurable, hplace⟩ := hlinear.returned i c updated hcall hstate
  have hchange : change ≠ none := by
    rintro rfl
    unfold serveCall at hserve
    split at hserve <;> cases hserve
  obtain ⟨before, rest, hsplit⟩ := List.append_of_mem (hdurable trivial hchange)
  refine ⟨before, rest, hsplit, ?_⟩
  obtain rfl := hplace before rest hsplit
  rw [hsplit, List.map_append] at hread
  have hbefore := bind_after hread.of_append
  have hanswer : (call ((after (serveCall parse render) none before).bind parse) c.op).1 = .ok updated := by
    unfold serveCall at hserve
    split at hserve
    · next heq =>
      cases hserve
      exact heq
    · cases hserve
  rw [← hbefore, hanswer]

/-- The text of the state file after a first healthy boot. -/
def healthyText : List UInt8 :=
  ("\x7b\n  \"current_digest\": \"sha256:a\",\n  \"failures\": 0,\n" ++
    "  \"failures_by_digest\": \x7b\x7d,\n  \"last_failure_boot_id\": \"\",\n" ++
    "  \"last_healthy_digest\": \"sha256:a\",\n  \"last_reason\": \"\",\n" ++
    "  \"last_recovered_digest\": \"\",\n  \"last_recovery_at\": 0,\n  \"last_rollback_at\": 0,\n" ++
    "  \"last_rollback_error\": \"\",\n  \"pending_digest\": \"\",\n  \"quarantined\": \x7b\x7d,\n" ++
    "  \"rollback_attempted_for\": \"\",\n  \"rollout_ring\": \"follow-image\",\n" ++
    "  \"schema_version\": 1,\n  \"status\": \"healthy\",\n  \"updated_at\": 5\n\x7d\n").toUTF8.data.toList

def healthyState : BootHealthState := markHealthy {} "sha256:a" 5

def sampleParse (text : List UInt8) : Option Value :=
  if text = healthyText then some (document healthyState) else none

/-- One call that was killed before it wrote its file, and another one. -/
def twoCalls : LockedFile.System Transition UInt8 String BootHealthState where
  store := some healthyText
  calls := [⟨.markHealthy "sha256:a" 4, .killed, false, false⟩,
    ⟨.markHealthy "sha256:a" 5, .returned (.ok healthyState), true, true⟩]
  log := [(1, .markHealthy "sha256:a" 5)]

theorem reachable_twoCalls : Reachable (callSteps sampleParse fun _ => healthyText) False none twoCalls := by
  have h : Reachable (callSteps sampleParse fun _ => healthyText) False none _ := .refl
  have h := h.tail (.begins _ (.markHealthy "sha256:a" 4))
  have h := h.tail (.begins _ (.markHealthy "sha256:a" 5))
  have h := h.tail (.attempts (i := 0) ⟨rfl, rfl⟩ (.ok ()))
  have h := h.tail (.attempts (i := 0) ⟨rfl, rfl⟩ (.ok ()))
  have h := h.tail (.attempts (i := 1) ⟨rfl, rfl⟩ (.ok ()))
  have h := h.tail (.locks (i := 0) ⟨rfl, rfl⟩ rfl)
  have h := h.tail (.attempts (i := 1) ⟨rfl, rfl⟩ (.ok ()))
  have h := h.tail (.reads (i := 0) ⟨rfl, rfl⟩)
  have h := h.tail (.attempts (i := 0) ⟨rfl, rfl⟩ (.ok ()))
  have h := h.tail (.attempts (i := 0) ⟨rfl, rfl⟩ (.ok ()))
  have h := h.tail (.creates (i := 0) ⟨rfl, rfl⟩)
  have h := h.tail (.kills (i := 0) ⟨rfl, rfl⟩)
  have h := h.tail (.locks (i := 1) ⟨rfl, rfl⟩ rfl)
  have h := h.tail (.reads (i := 1) ⟨rfl, rfl⟩)
  have h := h.tail (.attempts (i := 1) ⟨rfl, rfl⟩ (.ok ()))
  have h := h.tail (.attempts (i := 1) ⟨rfl, rfl⟩ (.ok ()))
  have h := h.tail (.creates (i := 1) ⟨rfl, rfl⟩)
  have h := h.tail (.writes (i := 1) ⟨rfl, rfl⟩ healthyText [] (List.append_nil _).symm rfl)
  have h := h.tail (.writesAll (i := 1) ⟨rfl, rfl⟩)
  have h := h.tail (.syncs (i := 1) ⟨rfl, rfl⟩ rfl)
  have h := h.tail (.attempts (i := 1) ⟨rfl, rfl⟩ (.ok ()))
  have h := h.tail (.renames (i := 1) ⟨rfl, rfl⟩ rfl)
  have h := h.tail (.syncsDir (i := 1) ⟨rfl, rfl⟩)
  have h := h.tail (.returns (i := 1) ⟨rfl, rfl⟩)
  exact h

theorem readsBack_twoCalls :
    ReadsBack sampleParse (fun _ => healthyText) (twoCalls.log.map Prod.snd) := by
  intro before t rest updated hsplit hcall
  have hlength := congrArg List.length hsplit
  simp only [twoCalls, List.map_cons, List.map_nil, List.length_cons, List.length_nil, List.length_append] at hlength
  obtain rfl : before = [] := List.length_eq_zero_iff.1 (by omega)
  rw [List.nil_append] at hsplit
  cases hsplit
  have hanswer : (call (fileAfter []) (.markHealthy "sha256:a" 5)).1 = .ok healthyState := rfl
  rw [hanswer, Except.ok.injEq] at hcall
  rw [← hcall]
  exact if_pos rfl

theorem coordinator_serial_twoCalls :
    twoCalls.store.bind sampleParse = fileAfter (twoCalls.log.map Prod.snd) ∧
      (twoCalls.log.map Prod.fst).Nodup ∧
      (∀ e ∈ twoCalls.log, ∃ c, twoCalls.calls[e.1]? = some c ∧ c.op = e.2) ∧
      (∀ i c updated, twoCalls.calls[i]? = some c → c.state = .returned (.ok updated) →
        ∃ before rest, twoCalls.log = before ++ (i, c.op) :: rest ∧
          (call (fileAfter (before.map Prod.snd)) c.op).1 = .ok updated) ∧
      ∀ s', Relation.ReflTransGen (Step (callSteps sampleParse fun _ => healthyText) False) twoCalls s' →
        twoCalls.outages < s'.outages ∨ s'.outages = twoCalls.outages ∧ twoCalls.log <+: s'.log :=
  coordinator_serial reachable_twoCalls readsBack_twoCalls

end Kyth.BootHealth
