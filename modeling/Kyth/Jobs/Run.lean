import Kyth.Jobs.Store

/-!
# Sequences of calls of the job store

`Sound` is the invariant of the store together with the list of the ids that were handed out so far:
the store is bounded, its queue lists the stored ids in the order of their starts, and an entry stored
under an id belongs to the last start that was given this id. `History.sound_run` says that every
sequence of calls keeps it; the readings of the clock may be any numbers.
-/

namespace Kyth.Jobs

open Queued

/-- The store with the ids that its starts have handed out, in order. -/
structure History where
  store : Store := {}
  issued : List String := []

/-- The history after a call. -/
def History.step (h : History) (call : Call) : History where
  store := call.apply h.store
  issued := h.issued ++ call.issues h.store

/-- The history after a sequence of calls of an empty store. -/
def run (calls : List Call) : History := calls.foldl History.step {}

theorem run_append (calls later : List Call) :
    run (calls ++ later) = later.foldl History.step (run calls) :=
  List.foldl_append

theorem run_concat (calls : List Call) (call : Call) :
    run (calls ++ [call]) = (run calls).step call :=
  run_append calls [call]

/-- The last start that was given the id is the one with this number. -/
structure IsLatest (issued : List String) (number : ℕ) (id : String) : Prop where
  getElem? : issued[number]? = some id
  later : ∀ k, number < k → issued[k]? ≠ some id

namespace IsLatest

variable {issued : List String} {number : ℕ} {id : String}

theorem lt (h : IsLatest issued number id) : number < issued.length :=
  (List.getElem?_eq_some_iff.mp h.getElem?).1

/-- Handing out another id changes nothing. -/
theorem concat {other : String} (h : IsLatest issued number id) (hne : other ≠ id) :
    IsLatest (issued ++ [other]) number id where
  getElem? := by rw [List.getElem?_append_left h.lt, h.getElem?]
  later k hk hget := by
    by_cases hlt : k < issued.length
    · rw [List.getElem?_append_left hlt] at hget
      exact h.later k hk hget
    · rw [List.getElem?_append_right (by omega), List.getElem?_singleton] at hget
      split_ifs at hget
      exact hne (Option.some.inj hget)

theorem of_concat (issued : List String) (id : String) :
    IsLatest (issued ++ [id]) issued.length id where
  getElem? := List.getElem?_concat_length
  later k hk hget := by
    have := (List.getElem?_eq_some_iff.mp hget).1
    rw [List.length_append, List.length_singleton] at this
    omega

end IsLatest

/-- The invariant of the store and of the ids that were handed out. -/
structure Sound (s : Store) (issued : List String) : Prop where
  bounded : s.entries.keys.length ≤ maxJobs
  inStep : InStep Entry.cancel s.entries s.order
  flags_length : s.flags.length = issued.length
  latest : ∀ id entry, s.entries.lookup id = some entry → IsLatest issued entry.cancel id

variable {s s' : Store} {issued : List String} {now : ℕ} {id : String} {entry : Entry}

theorem sound_empty : Sound {} [] where
  bounded := by decide
  inStep := InStep.empty
  flags_length := rfl
  latest id entry h := by rw [AList.lookup_empty] at h; exact absurd h nofun

/-! ### Pruning and eviction -/

theorem lookup_pruneLocked :
    (s.pruneLocked now).entries.lookup id = some entry ↔
      s.entries.lookup id = some entry ∧ entry.expired now = false := by
  rw [Store.pruneLocked, lookup_retain_eq_some, Bool.not_eq_true']

theorem lookup_of_lookup_evict {victim : String}
    (h : (s.evict victim).entries.lookup id = some entry) :
    id ≠ victim ∧ s.entries.lookup id = some entry := by
  by_cases hid : id = victim
  · subst hid
    rw [Store.evict, AList.lookup_erase] at h
    exact absurd h nofun
  · rw [Store.evict, AList.lookup_erase_ne hid] at h
    exact ⟨hid, h⟩

theorem evict_flags_length (victim : String) : (s.evict victim).flags.length = s.flags.length := by
  simp only [Store.evict]
  split
  · split_ifs
    · exact List.length_set
    · rfl
  · rfl

/-- A store whose entries come from the entries of a sound one. -/
theorem Sound.of_entries (h : Sound s issued) (hbounded : s'.entries.keys.length ≤ maxJobs)
    (hin : InStep Entry.cancel s'.entries s'.order) (hflags : s'.flags.length = s.flags.length)
    (hback : ∀ id entry, s'.entries.lookup id = some entry →
      ∃ old, s.entries.lookup id = some old ∧ old.cancel = entry.cancel) : Sound s' issued where
  bounded := hbounded
  inStep := hin
  flags_length := hflags.trans h.flags_length
  latest id entry hentry := by
    obtain ⟨old, hold, hcancel⟩ := hback id entry hentry
    exact hcancel ▸ h.latest id old hold

theorem Sound.pruneLocked (h : Sound s issued) (now : ℕ) : Sound (s.pruneLocked now) issued := by
  have hin : InStep Entry.cancel (s.pruneLocked now).entries (s.pruneLocked now).order :=
    h.inStep.retain fun _ entry => !entry.expired now
  refine h.of_entries ?_ hin rfl fun id entry hentry => ⟨entry, (lookup_pruneLocked.mp hentry).1, rfl⟩
  have hle : (s.pruneLocked now).order.length ≤ s.order.length := List.length_filter_le _ _
  rw [← hin.length_eq]
  exact hle.trans (h.inStep.length_eq ▸ h.bounded)

theorem Sound.length_evict (h : Sound s issued) {victim : String} (hvictim : s.victim = some victim) :
    (s.evict victim).entries.keys.length < s.entries.keys.length := by
  have hin : InStep Entry.cancel (s.evict victim).entries (s.evict victim).order :=
    h.inStep.erase victim
  rw [← hin.length_eq, ← h.inStep.length_eq]
  exact Store.evict_order_length_lt hvictim

theorem Sound.evict (h : Sound s issued) {victim : String} (hvictim : s.victim = some victim) :
    Sound (s.evict victim) issued :=
  h.of_entries ((h.length_evict hvictim).le.trans h.bounded) (h.inStep.erase victim)
    (evict_flags_length victim) fun _ entry hentry => ⟨entry, (lookup_of_lookup_evict hentry).2, rfl⟩

theorem victim_eq_none (h : s.victim = none) : s.order = [] :=
  List.head?_eq_none_iff.mp (Option.or_eq_none_iff.mp h).2

/-- The store is full, and the next round of the eviction removes this entry. -/
def Store.Evicts (s : Store) (id : String) : Prop :=
  maxJobs ≤ s.entries.keys.length ∧ s.victim = some id

/-- A sound store is not over the bound, so the eviction makes at most one round. -/
theorem Sound.evictLocked_eq (h : Sound s issued) :
    s.entries.keys.length < maxJobs ∧ s.evictLocked = s ∨
      ∃ victim, s.Evicts victim ∧ s.evictLocked = s.evict victim := by
  by_cases hfull : maxJobs ≤ s.entries.keys.length
  · right
    cases hvictim : s.victim with
    | none =>
      have horder := victim_eq_none hvictim
      have hlength := h.inStep.length_eq
      rw [horder, List.length_nil] at hlength
      rw [← hlength] at hfull
      exact absurd hfull (by decide)
    | some victim =>
      refine ⟨victim, ⟨hfull, hvictim⟩, ?_⟩
      have hroom : ¬ maxJobs ≤ (s.evict victim).entries.keys.length := by
        have := h.length_evict hvictim
        have := h.bounded
        omega
      rw [Store.evictLocked, if_pos hfull]
      split
      · next other hother =>
        rw [hvictim, Option.some.injEq] at hother
        subst hother
        rw [Store.evictLocked, if_neg hroom]
      · next hnone => rw [hvictim] at hnone; exact absurd hnone (Option.some_ne_none _)
  · left
    refine ⟨by omega, ?_⟩
    rw [Store.evictLocked, if_neg hfull]

theorem Sound.evictLocked (h : Sound s issued) : Sound s.evictLocked issued := by
  rcases h.evictLocked_eq with ⟨-, heq⟩ | ⟨victim, hvictim, heq⟩
  · rwa [heq]
  · rw [heq]
    exact h.evict hvictim.2

theorem Sound.evictLocked_length_lt (h : Sound s issued) :
    s.evictLocked.entries.keys.length < maxJobs := by
  rcases h.evictLocked_eq with ⟨hlt, heq⟩ | ⟨victim, hvictim, heq⟩
  · rwa [heq]
  · rw [heq]
    exact (h.length_evict hvictim.2).trans_le h.bounded

theorem Sound.makeRoom (h : Sound s issued) (now : ℕ) : Sound (s.makeRoom now) issued :=
  (h.pruneLocked now).evictLocked

/-- An entry that the eviction leaves was there before. -/
theorem Sound.lookup_of_lookup_evictLocked (h : Sound s issued)
    (hentry : s.evictLocked.entries.lookup id = some entry) :
    s.entries.lookup id = some entry := by
  rcases h.evictLocked_eq with ⟨-, heq⟩ | ⟨victim, -, heq⟩
  · rwa [heq] at hentry
  · rw [heq] at hentry
    exact (lookup_of_lookup_evict hentry).2

/-- An entry that the eviction removes is its victim. -/
theorem Sound.evicts_of_lookup_evictLocked (h : Sound s issued)
    (hentry : s.entries.lookup id = some entry) (hgone : s.evictLocked.entries.lookup id ≠ some entry) :
    s.Evicts id ∧ s.evictLocked = s.evict id := by
  rcases h.evictLocked_eq with ⟨-, heq⟩ | ⟨victim, hvictim, heq⟩
  · rw [heq] at hgone
    exact absurd hentry hgone
  · by_cases hid : id = victim
    · subst hid
      exact ⟨hvictim, heq⟩
    · rw [heq, Store.evict, AList.lookup_erase_ne hid] at hgone
      exact absurd hentry hgone

/-- A victim that is not in a terminal state is taken only when no entry is in one. -/
theorem Sound.not_terminal_of_victim (h : Sound s issued) (hvictim : s.victim = some id)
    (hentry : s.entries.lookup id = some entry) (hstate : entry.terminal = false) {other : String}
    {entry' : Entry} (hother : s.entries.lookup other = some entry') : entry'.terminal = false := by
  rcases Option.or_eq_some_iff.mp hvictim with hfind | ⟨hnone, -⟩
  · have hterminal := List.find?_some hfind
    simp only [hentry, Option.any_some, hstate] at hterminal
    exact absurd hterminal nofun
  · have hmem : other ∈ s.order := (h.inStep.mem_iff other).mpr (mem_iff_lookup.mpr ⟨_, hother⟩)
    have := List.find?_eq_none.mp hnone other hmem
    rw [hother, Option.any_some] at this
    exact Bool.not_eq_true _ ▸ this

theorem Sound.flag_of_evict (h : Sound s issued) (hentry : s.entries.lookup id = some entry)
    (hstate : entry.state = stateRunning) : (s.evict id).flags[entry.cancel]? = some true := by
  have hlt : entry.cancel < s.flags.length := h.flags_length ▸ (h.latest id entry hentry).lt
  simp only [Store.evict, hentry, if_pos hstate]
  rw [List.getElem?_set_self hlt]

/-! ### The other calls -/

/-- A call that gives one entry, which is not cancelled, a new state or text. -/
structure Rewrites (s s' : Store) (id : String) (old new : Entry) : Prop where
  stored : s.entries.lookup id = some old
  live : old.state ≠ stateCancelled
  entries : s'.entries = s.entries.insert id new
  cancel : new.cancel = old.cancel
  order : s'.order = s.order
  flags_length : s'.flags.length = s.flags.length

theorem running_ne_cancelled : stateRunning ≠ stateCancelled := by decide

theorem finish_cases (s : Store) (now : ℕ) (id state detail : String) :
    (s.finish now id state detail = s ∧
      ∀ old, s.entries.lookup id = some old → old.state = stateCancelled) ∨ ∃ old,
      Rewrites s (s.finish now id state detail) id old
        { old with state, detail, finishedAt := some now } := by
  unfold Store.finish
  split
  · next hnone => exact Or.inl ⟨rfl, fun old hold => absurd (hnone.symm.trans hold) nofun⟩
  · next old hold =>
    split_ifs with hstate
    · exact Or.inl ⟨rfl, fun other hother => Option.some.inj (hold.symm.trans hother) ▸ hstate⟩
    · exact Or.inr ⟨old, hold, hstate, rfl, rfl, rfl, rfl⟩

theorem updateDetail_cases (s : Store) (id detail : String) :
    ((s.updateDetail id detail).2 = s ∧
      ∀ old, s.entries.lookup id = some old → old.state ≠ stateRunning) ∨
      ∃ old, old.state = stateRunning ∧
        Rewrites s (s.updateDetail id detail).2 id old { old with detail } := by
  unfold Store.updateDetail
  split
  · next hnone => exact Or.inl ⟨rfl, fun old hold => absurd (hnone.symm.trans hold) nofun⟩
  · next old hold =>
    split_ifs with hstate
    · exact Or.inl ⟨rfl, fun other hother => Option.some.inj (hold.symm.trans hother) ▸ hstate⟩
    · rw [not_not] at hstate
      exact Or.inr ⟨old, hstate, hold, hstate ▸ running_ne_cancelled, rfl, rfl, rfl, rfl⟩

theorem cancel_cases (s : Store) (now : ℕ) (id : String) :
    (s.cancel now id).2 = s ∨ ∃ old,
      Rewrites s (s.cancel now id).2 id old { old with
        state := stateCancelled, detail := "Cancelled.", finishedAt := some now } := by
  unfold Store.cancel
  split
  · exact Or.inl rfl
  · next old hold =>
    split_ifs with hstate
    · exact Or.inl rfl
    · rw [not_not] at hstate
      exact Or.inr ⟨old, hold, hstate ▸ running_ne_cancelled, rfl, rfl, rfl, List.length_set⟩

/-- The time at which a call prunes the store. -/
def Call.prunes : Call → Option ℕ
  | .start now _ _ => some now
  | .status now _ => some now
  | .pruneAt now => some now
  | _ => none

/-- What a call other than a start does to the store. -/
theorem Call.apply_cases (s : Store) (call : Call) :
    (∃ now id detail, call = .start now id detail) ∨ call.issues s = [] ∧
      (call.apply s = s ∨ (∃ id old new, Rewrites s (call.apply s) id old new) ∨
        ∃ now, call.prunes = some now ∧ call.apply s = s.pruneLocked now) := by
  cases call with
  | start now id detail => exact Or.inl ⟨now, id, detail, rfl⟩
  | finish now id state detail =>
    refine Or.inr ⟨rfl, ?_⟩
    rcases finish_cases s now id state detail with ⟨h, -⟩ | ⟨old, h⟩
    · exact Or.inl h
    · exact Or.inr (Or.inl ⟨id, old, _, h⟩)
  | cancel now id =>
    refine Or.inr ⟨rfl, ?_⟩
    rcases cancel_cases s now id with h | ⟨old, h⟩
    · exact Or.inl h
    · exact Or.inr (Or.inl ⟨id, old, _, h⟩)
  | updateDetail id detail =>
    refine Or.inr ⟨rfl, ?_⟩
    rcases updateDetail_cases s id detail with ⟨h, -⟩ | ⟨old, -, h⟩
    · exact Or.inl h
    · exact Or.inr (Or.inl ⟨id, old, _, h⟩)
  | status now id => exact Or.inr ⟨rfl, Or.inr (Or.inr ⟨now, rfl, rfl⟩)⟩
  | pruneAt now => exact Or.inr ⟨rfl, Or.inr (Or.inr ⟨now, rfl, rfl⟩)⟩

theorem Rewrites.lookup {other : String} {old new : Entry} (h : Rewrites s s' id old new)
    (hentry : s'.entries.lookup other = some entry) :
    other = id ∧ entry = new ∨ other ≠ id ∧ s.entries.lookup other = some entry := by
  rw [h.entries] at hentry
  by_cases hother : other = id
  · subst hother
    rw [AList.lookup_insert, Option.some.injEq] at hentry
    exact Or.inl ⟨rfl, hentry.symm⟩
  · rw [AList.lookup_insert_ne hother] at hentry
    exact Or.inr ⟨hother, hentry⟩

/-- A cancelled entry is not rewritten. -/
theorem Rewrites.lookup_of_cancelled {other : String} {old new : Entry}
    (h : Rewrites s s' id old new) (hentry : s.entries.lookup other = some entry)
    (hstate : entry.state = stateCancelled) : s'.entries.lookup other = some entry := by
  have hother : other ≠ id := by
    rintro rfl
    rw [h.stored, Option.some.injEq] at hentry
    exact h.live (hentry ▸ hstate)
  rw [h.entries, AList.lookup_insert_ne hother, hentry]

theorem Sound.rewrites {old new : Entry} (h : Sound s issued) (hrw : Rewrites s s' id old new) :
    Sound s' issued := by
  have hin : InStep Entry.cancel s'.entries s'.order := by
    rw [hrw.entries, hrw.order]
    exact h.inStep.update hrw.stored hrw.cancel
  refine h.of_entries ?_ hin hrw.flags_length ?_
  · rw [← hin.length_eq, hrw.order, h.inStep.length_eq]
    exact h.bounded
  · intro other entry hentry
    rcases hrw.lookup hentry with ⟨rfl, rfl⟩ | ⟨-, hold⟩
    · exact ⟨old, hrw.stored, hrw.cancel.symm⟩
    · exact ⟨entry, hold, rfl⟩

/-! ### Starts -/

theorem start_id_not_mem (s : Store) (now : ℕ) (id detail : String) :
    (s.start now id detail).1.1 ∉ (s.makeRoom now).entries :=
  uniqueFrom_not_mem _ _ _

theorem start_entries (s : Store) (now : ℕ) (id detail : String) :
    (s.start now id detail).2.entries = (s.makeRoom now).entries.insert (s.start now id detail).1.1
      ⟨stateRunning, detail, (s.makeRoom now).flags.length, none⟩ := rfl

theorem Sound.start (h : Sound s issued) (now : ℕ) (id detail : String) :
    Sound (s.start now id detail).2 (issued ++ [(s.start now id detail).1.1]) := by
  have hroom := h.makeRoom now
  have hlt : (s.makeRoom now).entries.keys.length < maxJobs :=
    (h.pruneLocked now).evictLocked_length_lt
  have hfresh := start_id_not_mem s now id detail
  have hin : InStep Entry.cancel (s.start now id detail).2.entries
      (s.start now id detail).2.order := by
    refine hroom.inStep.push hfresh fun other old hold => ?_
    exact hroom.flags_length ▸ (hroom.latest other old hold).lt
  refine ⟨?_, hin, ?_, ?_⟩
  · rw [← hin.length_eq]
    show ((s.makeRoom now).order ++ [_]).length ≤ maxJobs
    rw [List.length_append, List.length_singleton, hroom.inStep.length_eq]
    omega
  · show ((s.makeRoom now).flags ++ [false]).length = _
    rw [List.length_append, List.length_append, List.length_singleton, List.length_singleton,
      hroom.flags_length]
  · intro other entry hentry
    rw [start_entries] at hentry
    by_cases hother : other = (s.start now id detail).1.1
    · subst hother
      rw [AList.lookup_insert, Option.some.injEq] at hentry
      subst hentry
      show IsLatest _ (s.makeRoom now).flags.length _
      rw [hroom.flags_length]
      exact IsLatest.of_concat issued _
    · rw [AList.lookup_insert_ne hother] at hentry
      exact (hroom.latest other entry hentry).concat (Ne.symm hother)

/-! ### Runs -/

theorem Sound.apply (h : Sound s issued) (call : Call) :
    Sound (call.apply s) (issued ++ call.issues s) := by
  rcases call.apply_cases s with ⟨now, id, detail, rfl⟩ | ⟨hissues, hcase⟩
  · exact h.start now id detail
  · rw [hissues, List.append_nil]
    rcases hcase with heq | ⟨id, old, new, hrw⟩ | ⟨now, -, heq⟩
    · rwa [heq]
    · exact h.rewrites hrw
    · rw [heq]
      exact h.pruneLocked now

theorem sound_foldl {h : History} (hsound : Sound h.store h.issued) (calls : List Call) :
    Sound (calls.foldl History.step h).store (calls.foldl History.step h).issued := by
  induction calls generalizing h with
  | nil => exact hsound
  | cons call calls ih => exact ih (hsound.apply call)

theorem sound_run (calls : List Call) : Sound (run calls).store (run calls).issued :=
  sound_foldl sound_empty calls

/-- Where an entry comes from: it was stored under the same id, or the call is the start that created
it. A cancelled entry comes through unchanged. -/
theorem Sound.origin (h : Sound s issued) (call : Call)
    (hentry : (call.apply s).entries.lookup id = some entry) :
    entry.cancel = s.flags.length ∨ ∃ old, s.entries.lookup id = some old ∧
      old.cancel = entry.cancel ∧ (old.state = stateCancelled → entry = old) := by
  rcases call.apply_cases s with ⟨now, wanted, detail, rfl⟩ |
    ⟨-, heq | ⟨other, old, new, hrw⟩ | ⟨now, -, heq⟩⟩
  · rw [Call.apply, start_entries] at hentry
    by_cases hid : id = (s.start now wanted detail).1.1
    · subst hid
      rw [AList.lookup_insert, Option.some.injEq] at hentry
      refine Or.inl ?_
      rw [← hentry, (h.makeRoom now).flags_length, h.flags_length]
    · rw [AList.lookup_insert_ne hid] at hentry
      have hpruned := (h.pruneLocked now).lookup_of_lookup_evictLocked hentry
      exact Or.inr ⟨entry, (lookup_pruneLocked.mp hpruned).1, rfl, fun _ => rfl⟩
  · rw [heq] at hentry
    exact Or.inr ⟨entry, hentry, rfl, fun _ => rfl⟩
  · rcases hrw.lookup hentry with ⟨rfl, rfl⟩ | ⟨-, hold⟩
    · exact Or.inr ⟨old, hrw.stored, hrw.cancel.symm, fun hstate => absurd hstate hrw.live⟩
    · exact Or.inr ⟨entry, hold, rfl, fun _ => rfl⟩
  · rw [heq] at hentry
    exact Or.inr ⟨entry, (lookup_pruneLocked.mp hentry).1, rfl, fun _ => rfl⟩

/-- A call keeps a cancelled entry as it is, or prunes it or evicts it. -/
theorem Sound.cancelled_kept (h : Sound s issued) (call : Call)
    (hentry : s.entries.lookup id = some entry) (hstate : entry.state = stateCancelled) :
    (call.apply s).entries.lookup id = some entry ∨ ∃ now, call.prunes = some now ∧
      (entry.expired now = true ∨ (s.pruneLocked now).Evicts id) := by
  rcases call.apply_cases s with ⟨now, wanted, detail, rfl⟩ |
    ⟨-, heq | ⟨other, old, new, hrw⟩ | ⟨now, hnow, heq⟩⟩
  · cases hexpired : entry.expired now with
    | true => exact Or.inr ⟨now, rfl, Or.inl hexpired⟩
    | false =>
      have hpruned : (s.pruneLocked now).entries.lookup id = some entry :=
        lookup_pruneLocked.mpr ⟨hentry, hexpired⟩
      by_cases hroom : (s.makeRoom now).entries.lookup id = some entry
      · left
        have hne : id ≠ (s.start now wanted detail).1.1 := by
          rintro rfl
          exact start_id_not_mem s now wanted detail (mem_iff_lookup.mpr ⟨_, hroom⟩)
        rw [Call.apply, start_entries, AList.lookup_insert_ne hne, hroom]
      · exact Or.inr ⟨now, rfl, Or.inr
          ((h.pruneLocked now).evicts_of_lookup_evictLocked hpruned hroom).1⟩
  · rw [heq]
    exact Or.inl hentry
  · exact Or.inl (hrw.lookup_of_cancelled hentry hstate)
  · cases hexpired : entry.expired now with
    | true => exact Or.inr ⟨now, hnow, Or.inl hexpired⟩
    | false => exact Or.inl (heq ▸ lookup_pruneLocked.mpr ⟨hentry, hexpired⟩)

theorem issued_length_le_foldl (h : History) (calls : List Call) :
    h.issued.length ≤ (calls.foldl History.step h).issued.length := by
  induction calls generalizing h with
  | nil => exact le_rfl
  | cons call calls ih =>
    refine le_trans ?_ (ih (h.step call))
    simp [History.step]

/-- What a cancelled job looks like after any further calls: its entry, if it is still stored, has
not changed. -/
theorem cancelled_foldl {h : History} (hsound : Sound h.store h.issued)
    (hentry : h.store.entries.lookup id = some entry) (hstate : entry.state = stateCancelled)
    (calls : List Call) {other : String} {later : Entry}
    (hlater : (calls.foldl History.step h).store.entries.lookup other = some later)
    (hcancel : later.cancel = entry.cancel) : other = id ∧ later = entry := by
  induction calls using List.reverseRecOn generalizing other later with
  | nil =>
    have hother := (hsound.latest other later hlater).getElem?
    rw [hcancel, (hsound.latest id entry hentry).getElem?, Option.some.injEq] at hother
    subst hother
    exact ⟨rfl, Option.some.inj (hlater.symm.trans hentry)⟩
  | append_singleton calls call ih =>
    rw [List.foldl_append] at hlater
    have hmid := sound_foldl hsound calls
    rcases hmid.origin call hlater with hnew | ⟨old, hold, holdcancel, hsame⟩
    · -- The call is a start, which has a number of its own.
      have hlt := (hsound.latest id entry hentry).lt
      have hle := issued_length_le_foldl h calls
      have hflags := hmid.flags_length
      omega
    · obtain ⟨rfl, rfl⟩ := ih hold (holdcancel.trans hcancel)
      exact ⟨rfl, hsame hstate⟩

/-- The number of the start that created the entry under an id. -/
def Store.startNumber (s : Store) (id : String) : ℕ := ((s.entries.lookup id).map Entry.cancel).getD 0

theorem startNumber_of_lookup (h : s.entries.lookup id = some entry) :
    s.startNumber id = entry.cancel := by
  rw [Store.startNumber, h, Option.map_some, Option.getD_some]

/-- The numbers of the stored jobs, in the order of the queue. -/
theorem Sound.startNumbers (h : Sound s issued) :
    (s.order.map s.startNumber).Pairwise (· < ·) ∧
      ((s.order.map s.startNumber).map fun n => issued[n]?) = s.order.map some := by
  have hstored : ∀ id ∈ s.order, ∃ entry, s.entries.lookup id = some entry := fun id hid =>
    mem_iff_lookup.mp ((h.inStep.mem_iff id).mp hid)
  constructor
  · rw [List.pairwise_map]
    refine h.inStep.sorted.imp_of_mem ?_
    intro first second hfirst hsecond hlt
    obtain ⟨v, hv⟩ := hstored first hfirst
    obtain ⟨w, hw⟩ := hstored second hsecond
    rw [startNumber_of_lookup hv, startNumber_of_lookup hw]
    exact hlt v w hv hw
  · rw [List.map_map]
    refine List.map_congr_left fun id hid => ?_
    obtain ⟨entry, hentry⟩ := hstored id hid
    show issued[s.startNumber id]? = some id
    rw [startNumber_of_lookup hentry, (h.latest id entry hentry).getElem?]

/-- Every sequence of calls: the store is bounded; its queue lists the stored ids once each, in the
order of the starts that created the entries; a start gets an id that is not stored; the eviction ends
with room for an entry, and removes a running one only when no entry is terminal, with its flag set;
and a cancelled job keeps its entry until a call prunes or evicts it. -/
theorem store_sound (calls : List Call) :
    (run calls).store.entries.keys.length ≤ maxJobs ∧
    ((run calls).store.order.Perm (run calls).store.entries.keys ∧
      (run calls).store.order.Nodup ∧
      ∃ numbers : List ℕ, numbers.Pairwise (· < ·) ∧
        (numbers.map fun n => (run calls).issued[n]?) = (run calls).store.order.map some ∧
        ∀ id entry, (run calls).store.entries.lookup id = some entry →
          (run calls).issued[entry.cancel]? = some id ∧ entry.cancel ∈ numbers) ∧
    (∀ now id detail, ((run calls).store.start now id detail).1.1 ∉
      ((run calls).store.makeRoom now).entries) ∧
    (∀ now, ((run calls).store.makeRoom now).entries.keys.length < maxJobs ∧
      ∀ id entry, ((run calls).store.pruneLocked now).entries.lookup id = some entry →
        entry.state = stateRunning → id ∉ ((run calls).store.makeRoom now).entries →
          (∀ other entry', ((run calls).store.pruneLocked now).entries.lookup other = some entry' →
            isTerminal entry'.state = false) ∧
          ((run calls).store.makeRoom now).flags[entry.cancel]? = some true) ∧
    ∀ id entry, (run calls).store.entries.lookup id = some entry → entry.state = stateCancelled →
      (∀ call, ((run calls).step call).store.entries.lookup id = some entry ∨
        ∃ now, call.prunes = some now ∧ (entry.expired now = true ∨
          ((run calls).store.pruneLocked now).Evicts id)) ∧
      ∀ later other entry', (run (calls ++ later)).store.entries.lookup other = some entry' →
        entry'.cancel = entry.cancel → other = id ∧ entry' = entry := by
  have hsound := sound_run calls
  refine ⟨hsound.bounded, ⟨hsound.inStep.perm, hsound.inStep.nodup, ?_⟩,
    start_id_not_mem _, fun now => ⟨(hsound.pruneLocked now).evictLocked_length_lt, ?_⟩, ?_⟩
  · refine ⟨_, hsound.startNumbers.1, hsound.startNumbers.2, fun id entry hentry => ?_⟩
    refine ⟨(hsound.latest id entry hentry).getElem?, List.mem_map.mpr ⟨id, ?_, ?_⟩⟩
    · exact (hsound.inStep.mem_iff id).mpr (mem_iff_lookup.mpr ⟨entry, hentry⟩)
    · exact startNumber_of_lookup hentry
  · intro id entry hentry hstate hgone
    have hpruned := hsound.pruneLocked now
    obtain ⟨⟨-, hvictim⟩, heq⟩ := hpruned.evicts_of_lookup_evictLocked hentry
      fun hkept => hgone (mem_iff_lookup.mpr ⟨entry, hkept⟩)
    have hterminal : entry.terminal = false := by
      rw [Entry.terminal, hstate]
      decide
    refine ⟨fun other entry' hother => hpruned.not_terminal_of_victim hvictim hentry hterminal hother, ?_⟩
    rw [Store.makeRoom, heq]
    exact hpruned.flag_of_evict hentry hstate
  · intro id entry hentry hstate
    refine ⟨fun call => hsound.cancelled_kept call hentry hstate, fun later other entry' hlater => ?_⟩
    rw [run_append] at hlater
    exact cancelled_foldl hsound hentry hstate later hlater

end Kyth.Jobs
