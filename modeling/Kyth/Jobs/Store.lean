import Kyth.Lib.Queued
import Mathlib.Tactic

/-!
# The background-job store of the Hub (`system/jobs.rs`)

The store keeps a map from job ids to entries and a queue of the ids for the eviction. Each start
allocates one cancellation flag (an `Arc<AtomicBool>`), which the entry and the worker share: here a
flag is its position in the list of all flags, so it is also the number of the start. Times are readings
of the monotonic clock in nanoseconds; `duration_since` is zero for a later reading, as the subtraction
of `ℕ` is.

`store_sound` in `Kyth.Jobs.Run` is about every sequence of calls.
-/

namespace Kyth.Jobs

open Queued

/-- `MAX_JOBS`. -/
def maxJobs : ℕ := 256

/-- `TERMINAL_TTL`. -/
def terminalTtl : ℕ := 3600 * 1000000000

/-- `STATE_RUNNING`. -/
def stateRunning : String := "running"

/-- `STATE_CANCELLED`. -/
def stateCancelled : String := "cancelled"

/-- `is_terminal`. -/
def isTerminal (state : String) : Bool :=
  state == "complete" || state == "failed" || state == "cancelled"

/-- An entry of the store. -/
structure Entry where
  state : String
  detail : String
  cancel : ℕ
  finishedAt : Option ℕ
  deriving DecidableEq, Repr

/-- The entries by their id. -/
abbrev Entries := AList fun _ : String => Entry

/-- `Inner`, with all cancellation flags. -/
structure Store where
  entries : Entries := ∅
  order : List String := []
  flags : List Bool := []

/-- The entry is dropped by a pruning at `now`. -/
def Entry.expired (now : ℕ) (entry : Entry) : Bool :=
  match entry.finishedAt with
  | some finished => decide (terminalTtl < now - finished)
  | none => false

/-- The entry is in a terminal state. -/
def Entry.terminal (entry : Entry) : Bool := isTerminal entry.state

/-! ### The id of a new job -/

/-- The id that is tried in a round of the loop in `start`. -/
def candidate (id : String) (round : ℕ) : String :=
  if round = 1 then id else id ++ "-" ++ toString round

theorem toString_inj {m n : ℕ} (h : toString m = toString n) : m = n := by
  have hdigits : Nat.toDigits 10 m = Nat.toDigits 10 n := by
    have := congrArg String.toList h
    rwa [Nat.toString_eq_ofList_toDigits, Nat.toString_eq_ofList_toDigits, String.toList_ofList,
      String.toList_ofList] at this
  rw [← Nat.ofDigitChars_ten_toDigits (n := m), hdigits, Nat.ofDigitChars_ten_toDigits]

theorem candidate_inj {id : String} {m n : ℕ} (h : candidate id m = candidate id n) : m = n := by
  have hlong : ∀ k : ℕ, id ≠ id ++ "-" ++ toString k := by
    intro k hk
    have := congrArg String.length hk
    have hdash : "-".length = 1 := rfl
    simp only [String.length_append] at this
    omega
  unfold candidate at h
  split_ifs at h with hm hn hn
  · omega
  · exact absurd h (hlong n)
  · exact absurd h.symm (hlong m)
  · exact toString_inj (String.append_right_inj _ |>.mp h)

/-- The stored ids that no earlier round has tried: what the loop in `start` runs out of. -/
def untried (entries : Entries) (id : String) (round : ℕ) : List String :=
  entries.keys.filter fun key => decide (∀ r < round, candidate id r ≠ key)

theorem untried_length_succ_lt {entries : Entries} {id : String} {round : ℕ}
    (h : candidate id round ∈ entries) :
    (untried entries id (round + 1)).length < (untried entries id round).length := by
  have hsub : (untried entries id (round + 1)).Sublist (untried entries id round) := by
    refine List.monotone_filter_right _ fun key hkey => ?_
    simp only [decide_eq_true_eq] at hkey ⊢
    exact fun r hr => hkey r (by omega)
  refine lt_of_le_of_ne hsub.length_le fun hlength => ?_
  have heq := hsub.eq_of_length hlength
  have hmem : candidate id round ∈ untried entries id round := by
    refine List.mem_filter.mpr ⟨h, ?_⟩
    simp only [decide_eq_true_eq]
    intro r hr heq
    exact absurd (candidate_inj heq) (by omega)
  rw [← heq] at hmem
  have := (List.mem_filter.mp hmem).2
  simp only [decide_eq_true_eq] at this
  exact this round (by omega) rfl

/-- The loop of `start` that adds suffixes until the id is free. -/
def uniqueFrom (entries : Entries) (id : String) (round : ℕ) : String :=
  if h : candidate id round ∈ entries then uniqueFrom entries id (round + 1)
  else candidate id round
termination_by (untried entries id round).length
decreasing_by exact untried_length_succ_lt h

theorem uniqueFrom_not_mem (entries : Entries) (id : String) (round : ℕ) :
    uniqueFrom entries id round ∉ entries := by
  fun_induction uniqueFrom entries id round with
  | case1 round h ih => exact ih
  | case2 round h => exact h

/-- The loop ends before its counter leaves 32 bits: it makes at most one round per stored id. -/
theorem uniqueFrom_eq_candidate (entries : Entries) (id : String) (round : ℕ) :
    ∃ last ≤ round + (untried entries id round).length,
      uniqueFrom entries id round = candidate id last := by
  fun_induction uniqueFrom entries id round with
  | case1 round h ih =>
    obtain ⟨last, hlast, heq⟩ := ih
    have := untried_length_succ_lt h
    exact ⟨last, by omega, heq⟩
  | case2 round h => exact ⟨round, by omega, rfl⟩

namespace Store

/-! ### The operations -/

/-- `prune_locked`. -/
def pruneLocked (now : ℕ) (s : Store) : Store :=
  let entries := retain (fun _ entry => !entry.expired now) s.entries
  { s with entries, order := s.order.filter fun id => decide (id ∈ entries) }

/-- The entry that the next round of the eviction removes. -/
def victim (s : Store) : Option String :=
  (s.order.find? fun id => (s.entries.lookup id).any Entry.terminal).or s.order.head?

/-- One round of the eviction. -/
def evict (victim : String) (s : Store) : Store where
  entries := s.entries.erase victim
  order := s.order.filter fun id => decide (id ≠ victim)
  flags :=
    match s.entries.lookup victim with
    | some entry => if entry.state = stateRunning then s.flags.set entry.cancel true else s.flags
    | none => s.flags

theorem victim_mem {s : Store} {victim : String} (h : s.victim = some victim) :
    victim ∈ s.order := by
  rcases Option.or_eq_some_iff.mp h with hfind | ⟨-, hhead⟩
  · exact List.mem_of_find?_eq_some hfind
  · exact List.mem_of_head? hhead

theorem evict_order_length_lt {s : Store} {victim : String} (h : s.victim = some victim) :
    (s.evict victim).order.length < s.order.length :=
  List.length_filter_lt_length_iff_exists.mpr ⟨victim, victim_mem h, by simp⟩

/-- `evict_locked`. The queue gets shorter in every round. -/
def evictLocked (s : Store) : Store :=
  if maxJobs ≤ s.entries.keys.length then
    match _h : s.victim with
    | some victim => evictLocked (s.evict victim)
    | none => s
  else s
termination_by s.order.length
decreasing_by exact evict_order_length_lt ‹_›

/-- The store in which `start` looks for a free id. -/
def makeRoom (now : ℕ) (s : Store) : Store := (s.pruneLocked now).evictLocked

/-- `JobStore::start`: the id of the job, the number of its flag and the store. -/
def start (now : ℕ) (id detail : String) (s : Store) : (String × ℕ) × Store :=
  let s := s.makeRoom now
  let unique := uniqueFrom s.entries id 1
  let cancel := s.flags.length
  ((unique, cancel),
    { entries := s.entries.insert unique ⟨stateRunning, detail, cancel, none⟩
      order := s.order ++ [unique]
      flags := s.flags ++ [false] })

/-- `JobStore::update_detail`. -/
def updateDetail (id detail : String) (s : Store) : Bool × Store :=
  match s.entries.lookup id with
  | none => (false, s)
  | some entry =>
      if entry.state ≠ stateRunning then (false, s)
      else (true, { s with entries := s.entries.insert id { entry with detail } })

/-- `JobStore::finish`. -/
def finish (now : ℕ) (id state detail : String) (s : Store) : Store :=
  match s.entries.lookup id with
  | none => s
  | some entry =>
      if entry.state = stateCancelled then s
      else { s with entries :=
              s.entries.insert id { entry with state, detail, finishedAt := some now } }

/-- `JobStore::cancel`. -/
def cancel (now : ℕ) (id : String) (s : Store) : Bool × Store :=
  match s.entries.lookup id with
  | none => (false, s)
  | some entry =>
      if entry.state ≠ stateRunning then (false, s)
      else
        (true, { s with
          entries := s.entries.insert id { entry with
            state := stateCancelled, detail := "Cancelled.", finishedAt := some now }
          flags := s.flags.set entry.cancel true })

/-- `JobStore::status`. -/
def status (now : ℕ) (id : String) (s : Store) : Option (String × String) × Store :=
  let s := s.pruneLocked now
  ((s.entries.lookup id).map fun entry => (entry.state, entry.detail), s)

end Store

/-- A call of the store. Each one holds the lock from its beginning to its end. -/
inductive Call
  | start (now : ℕ) (id detail : String)
  | finish (now : ℕ) (id state detail : String)
  | cancel (now : ℕ) (id : String)
  | updateDetail (id detail : String)
  | status (now : ℕ) (id : String)
  | pruneAt (now : ℕ)
  deriving DecidableEq

/-- The store after a call. -/
def Call.apply (s : Store) : Call → Store
  | .start now id detail => (s.start now id detail).2
  | .finish now id state detail => s.finish now id state detail
  | .cancel now id => (s.cancel now id).2
  | .updateDetail id detail => (s.updateDetail id detail).2
  | .status now id => (s.status now id).2
  | .pruneAt now => s.pruneLocked now

/-- The id that a call hands out. -/
def Call.issues (s : Store) : Call → List String
  | .start now id detail => [(s.start now id detail).1.1]
  | _ => []

end Kyth.Jobs
