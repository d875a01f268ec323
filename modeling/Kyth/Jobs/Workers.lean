import Kyth.Jobs.Run

/-!
# Workers that outlive their entries

A worker keeps the id that its start returned and reports to the store under this id, also when the
entry has been pruned or evicted in the meantime. The id is then free again, so a later start may be
given the same one. `workers_keep_to_their_entries_iff` says when the reports of such a worker touch the
entry of another job.
-/

namespace Kyth.Jobs

open Queued

/-- A call of the store, by the interface or by the worker of the start with this number. -/
inductive Event
  | start (now : ℕ) (id detail : String)
  | cancel (now : ℕ) (id : String)
  | status (now : ℕ) (id : String)
  | pruneAt (now : ℕ)
  | finish (worker now : ℕ) (state detail : String)
  | updateDetail (worker : ℕ) (detail : String)
  deriving DecidableEq

/-- The entries of all starts but the worker's show the same state and text in both stores. -/
def KeepsOthers (worker : ℕ) (s s' : Store) : Prop :=
  ∀ id entry, s.entries.lookup id = some entry → entry.cancel ≠ worker →
    ∃ after, s'.entries.lookup id = some after ∧
      after.cancel = entry.cancel ∧ after.state = entry.state ∧ after.detail = entry.detail

namespace Event

/-- The worker that makes the call. -/
def worker : Event → Option ℕ
  | .finish worker _ _ _ => some worker
  | .updateDetail worker _ => some worker
  | _ => none

/-- The call of the store. A worker reports under the id that its start returned; there is no worker
before its start. -/
def call (h : History) : Event → Option Call
  | .start now id detail => some (.start now id detail)
  | .cancel now id => some (.cancel now id)
  | .status now id => some (.status now id)
  | .pruneAt now => some (.pruneAt now)
  | .finish worker now state detail => h.issued[worker]?.map fun id => .finish now id state detail
  | .updateDetail worker detail => h.issued[worker]?.map fun id => .updateDetail id detail

/-- The history after an event. -/
def step (h : History) (event : Event) : History := (event.call h).elim h h.step

/-- A report of a worker leaves the entries of all other starts as they are. -/
def KeepsToItsEntry (h : History) (event : Event) : Prop :=
  ∀ worker, event.worker = some worker → KeepsOthers worker h.store (event.step h).store

/-- The worker's id has been given to a later start whose entry is still stored, is open to the report
and shows something else. -/
def IsStray (h : History) : Event → Prop
  | .finish worker _ state detail => ∃ id entry, h.issued[worker]? = some id ∧
      h.store.entries.lookup id = some entry ∧ worker < entry.cancel ∧
      entry.state ≠ stateCancelled ∧ ¬ (entry.state = state ∧ entry.detail = detail)
  | .updateDetail worker detail => ∃ id entry, h.issued[worker]? = some id ∧
      h.store.entries.lookup id = some entry ∧ worker < entry.cancel ∧
      entry.state = stateRunning ∧ entry.detail ≠ detail
  | _ => False

end Event

/-- The history after a sequence of events, from an empty store. -/
def runEvents (events : List Event) : History := events.foldl Event.step {}

theorem runEvents_sound (events : List Event) :
    Sound (runEvents events).store (runEvents events).issued := by
  induction events using List.reverseRecOn with
  | nil => exact sound_empty
  | append_singleton events event ih =>
    rw [runEvents, List.foldl_append]
    show Sound (Event.step (runEvents events) event).store (Event.step (runEvents events) event).issued
    rw [Event.step]
    cases event.call (runEvents events) with
    | none => exact ih
    | some call => exact ih.apply call

variable {h : History} {id : String} {entry : Entry} {worker now : ℕ} {state detail : String}

/-- The entry under the id of a worker is its own or that of a later start. -/
theorem Sound.worker_le (hsound : Sound h.store h.issued) (hissued : h.issued[worker]? = some id)
    (hentry : h.store.entries.lookup id = some entry) : worker ≤ entry.cancel := by
  by_contra hlt
  exact (hsound.latest id entry hentry).later worker (by omega) hissued

theorem keepsOthers_refl (worker : ℕ) (s : Store) : KeepsOthers worker s s :=
  fun _ entry hentry _ => ⟨entry, hentry, rfl, rfl, rfl⟩

/-- A report that rewrites an entry keeps those of the others when the entry is the worker's own or
already reads so. -/
theorem keepsOthers_iff_of_rewrites {s s' : Store} {old new : Entry}
    (hrw : Rewrites s s' id old new) :
    KeepsOthers worker s s' ↔
      (old.cancel ≠ worker → new.state = old.state ∧ new.detail = old.detail) := by
  constructor
  · intro hkeeps hne
    obtain ⟨after, hafter, -, hstate, hdetail⟩ := hkeeps id old hrw.stored hne
    rw [hrw.entries, AList.lookup_insert, Option.some.injEq] at hafter
    exact hafter ▸ ⟨hstate, hdetail⟩
  · intro hsame other entry hentry hne
    by_cases hother : other = id
    · subst hother
      obtain rfl : old = entry := Option.some.inj (hrw.stored.symm.trans hentry)
      refine ⟨new, ?_, hrw.cancel, hsame hne⟩
      rw [hrw.entries, AList.lookup_insert]
    · refine ⟨entry, ?_, rfl, rfl, rfl⟩
      rw [hrw.entries, AList.lookup_insert_ne hother, hentry]

theorem keepsOthers_finish_iff (hsound : Sound h.store h.issued)
    (hissued : h.issued[worker]? = some id) :
    KeepsOthers worker h.store (h.store.finish now id state detail) ↔
      ¬ (Event.finish worker now state detail).IsStray h := by
  rcases finish_cases h.store now id state detail with ⟨heq, hclosed⟩ | ⟨old, hrw⟩
  · refine iff_of_true (by rw [heq]; exact keepsOthers_refl _ _) ?_
    rintro ⟨other, entry, hother, hentry, -, hlive, -⟩
    obtain rfl : id = other := Option.some.inj (hissued.symm.trans hother)
    exact hlive (hclosed entry hentry)
  · rw [keepsOthers_iff_of_rewrites hrw]
    have hle := hsound.worker_le hissued hrw.stored
    constructor
    · rintro hsame ⟨other, entry, hother, hentry, hlt, -, hdiffers⟩
      obtain rfl : id = other := Option.some.inj (hissued.symm.trans hother)
      obtain rfl : old = entry := Option.some.inj (hrw.stored.symm.trans hentry)
      obtain ⟨hstate, hdetail⟩ := hsame (by omega)
      exact hdiffers ⟨hstate.symm, hdetail.symm⟩
    · intro hstray hne
      by_contra hdiffers
      refine hstray ⟨id, old, hissued, hrw.stored, by omega, hrw.live, fun hsame => ?_⟩
      exact hdiffers ⟨hsame.1.symm, hsame.2.symm⟩

theorem keepsOthers_updateDetail_iff (hsound : Sound h.store h.issued)
    (hissued : h.issued[worker]? = some id) :
    KeepsOthers worker h.store (h.store.updateDetail id detail).2 ↔
      ¬ (Event.updateDetail worker detail).IsStray h := by
  rcases updateDetail_cases h.store id detail with ⟨heq, hclosed⟩ | ⟨old, hrunning, hrw⟩
  · refine iff_of_true (by rw [heq]; exact keepsOthers_refl _ _) ?_
    rintro ⟨other, entry, hother, hentry, -, hlive, -⟩
    obtain rfl : id = other := Option.some.inj (hissued.symm.trans hother)
    exact hclosed entry hentry hlive
  · rw [keepsOthers_iff_of_rewrites hrw]
    have hle := hsound.worker_le hissued hrw.stored
    constructor
    · rintro hsame ⟨other, entry, hother, hentry, hlt, -, hdiffers⟩
      obtain rfl : id = other := Option.some.inj (hissued.symm.trans hother)
      obtain rfl : old = entry := Option.some.inj (hrw.stored.symm.trans hentry)
      exact hdiffers (hsame (by omega)).2.symm
    · intro hstray hne
      by_contra hdiffers
      refine hstray ⟨id, old, hissued, hrw.stored, by omega, hrunning, fun hsame => ?_⟩
      exact hdiffers ⟨rfl, hsame.symm⟩

/-- In a sound history, a report touches the entry of another job exactly when it is a stray one. -/
theorem Sound.keepsToItsEntry_iff (hsound : Sound h.store h.issued) (event : Event) :
    event.KeepsToItsEntry h ↔ ¬ event.IsStray h := by
  cases event with
  | finish worker now state detail =>
    have hsplit : (Event.finish worker now state detail).KeepsToItsEntry h ↔
        KeepsOthers worker h.store ((Event.finish worker now state detail).step h).store :=
      ⟨fun hkeeps => hkeeps worker rfl, fun hkeeps _ hworker => Option.some.inj hworker ▸ hkeeps⟩
    rw [hsplit]
    cases hissued : h.issued[worker]? with
    | none =>
      simp only [Event.step, Event.call, hissued, Option.map_none, Option.elim_none]
      refine iff_of_true (keepsOthers_refl _ _) ?_
      rintro ⟨id, entry, hid, -⟩
      exact absurd (hissued.symm.trans hid) nofun
    | some id =>
      simp only [Event.step, Event.call, hissued, Option.map_some, Option.elim_some]
      exact keepsOthers_finish_iff hsound hissued
  | updateDetail worker detail =>
    have hsplit : (Event.updateDetail worker detail).KeepsToItsEntry h ↔
        KeepsOthers worker h.store ((Event.updateDetail worker detail).step h).store :=
      ⟨fun hkeeps => hkeeps worker rfl, fun hkeeps _ hworker => Option.some.inj hworker ▸ hkeeps⟩
    rw [hsplit]
    cases hissued : h.issued[worker]? with
    | none =>
      simp only [Event.step, Event.call, hissued, Option.map_none, Option.elim_none]
      refine iff_of_true (keepsOthers_refl _ _) ?_
      rintro ⟨id, entry, hid, -⟩
      exact absurd (hissued.symm.trans hid) nofun
    | some id =>
      simp only [Event.step, Event.call, hissued, Option.map_some, Option.elim_some]
      exact keepsOthers_updateDetail_iff hsound hissued
  | start | cancel | status | pruneAt =>
    exact iff_of_true (fun _ hworker => absurd hworker nofun) fun hstray => hstray

/-- In every sequence of events, all reports keep to the entries of their own workers exactly when none
of them is a stray one. -/
theorem workers_keep_to_their_entries_iff (events : List Event) :
    (∀ before event after, events = before ++ event :: after →
      event.KeepsToItsEntry (runEvents before)) ↔
    ∀ before event after, events = before ++ event :: after → ¬ event.IsStray (runEvents before) := by
  constructor
  · intro hkeeps before event after hevents
    exact ((runEvents_sound before).keepsToItsEntry_iff event).mp (hkeeps before event after hevents)
  · intro hstray before event after hevents
    exact ((runEvents_sound before).keepsToItsEntry_iff event).mpr (hstray before event after hevents)

/-- A start in a store with room, under a free id. -/
theorem start_of_free {s : Store} (hroom : (s.pruneLocked now).entries.keys.length < maxJobs)
    (hfree : id ∉ (s.pruneLocked now).entries) :
    s.start now id detail =
      ((id, s.flags.length),
        { entries := (s.pruneLocked now).entries.insert id ⟨stateRunning, detail, s.flags.length, none⟩
          order := (s.pruneLocked now).order ++ [id]
          flags := s.flags ++ [false] }) := by
  have hmake : s.makeRoom now = s.pruneLocked now := by
    rw [Store.makeRoom, Store.evictLocked, if_neg (by omega)]
  have hunique : uniqueFrom (s.pruneLocked now).entries id 1 = id := by
    rw [uniqueFrom, dif_neg (by rwa [candidate, if_pos rfl]), candidate, if_pos rfl]
  simp only [Store.start, hmake, hunique]
  rfl

/-- A job is started and cancelled, its entry expires, a second job is started under the same id, and
then the worker of the first one reports that it is done. -/
def lateFinish : List Event :=
  [.start 0 "update-1" "first", .cancel 1 "update-1", .pruneAt 3600000000002,
    .start 3600000000003 "update-1" "second"]

theorem runEvents_lateFinish :
    runEvents lateFinish =
      { store :=
          { entries := AList.singleton "update-1" ⟨stateRunning, "second", 1, none⟩
            order := ["update-1"]
            flags := [true, false] }
        issued := ["update-1", "update-1"] } := by
  have hfirst : Store.start 0 "update-1" "first" {} =
      (("update-1", 0),
        { entries := AList.singleton "update-1" ⟨stateRunning, "first", 0, none⟩
          order := ["update-1"]
          flags := [false] }) :=
    start_of_free (by decide) (by decide)
  have hcancel : Store.cancel 1 "update-1"
      { entries := AList.singleton "update-1" ⟨stateRunning, "first", 0, none⟩
        order := ["update-1"]
        flags := [false] } =
      (true,
        { entries := AList.singleton "update-1" ⟨stateCancelled, "Cancelled.", 0, some 1⟩
          order := ["update-1"]
          flags := [true] }) := rfl
  have hprune : Store.pruneLocked 3600000000002
      { entries := AList.singleton "update-1" ⟨stateCancelled, "Cancelled.", 0, some 1⟩
        order := ["update-1"]
        flags := [true] } = { flags := [true] } := rfl
  have hsecond : Store.start 3600000000003 "update-1" "second" { flags := [true] } =
      (("update-1", 1),
        { entries := AList.singleton "update-1" ⟨stateRunning, "second", 1, none⟩
          order := ["update-1"]
          flags := [true, false] }) :=
    start_of_free (by decide) (by decide)
  simp only [runEvents, lateFinish, List.foldl_cons, List.foldl_nil, Event.step, Event.call,
    Option.elim_some, History.step, Call.apply, Call.issues, hfirst, hcancel, hprune, hsecond]
  rfl

theorem late_finish_lands_on_another_job :
    ¬ Event.KeepsToItsEntry (runEvents lateFinish) (.finish 0 3600000000004 "complete" "done") := by
  rw [(runEvents_sound lateFinish).keepsToItsEntry_iff, not_not, runEvents_lateFinish]
  refine ⟨"update-1", ⟨stateRunning, "second", 1, none⟩, rfl, ?_, by decide, by decide, by decide⟩
  exact AList.lookup_insert ∅

end Kyth.Jobs
