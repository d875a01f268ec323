import Kyth.Installer.Supervision

/-!
# A replay of a bounded history (`replay_locked`)

A supervisor keeps its last 1024 events. A subscriber that asks for what came after an event is told to
start over when the first of what it has missed is no longer there.

`replay_exact` says that otherwise it gets every event that was ever appended behind its own, as long as the
numbers of the events last: the largest number is given to all events from the last one of a `u64` on, and
once 1024 events carry it the replay can no longer tell what is missing (`replay_loses_events`).
-/

namespace Kyth.Job.Supervision

open Word

/-- A replay asks for a new start, or holds every event with a larger number that was ever appended. -/
def Exact (s : Supervision) (lastEventId : ℕ) : Prop :=
  (replayLocked s.state lastEventId).resetRequired = true ∨
    (replayLocked s.state lastEventId).events =
      (s.trace.map Prod.snd).filter fun event => decide (lastEventId < event.id)

/-- The number of the event at a place. -/
theorem Inv.id_getElem {s : Supervision} (h : Inv s) {k : ℕ} {event : JobEvent}
    (hevent : (s.trace.map Prod.snd)[k]? = some event) : event.id = min (2 ^ 64 - 1) (k + 1) := by
  have hids := congrArg (fun l => l[k]?) h.ids
  rw [List.getElem?_map] at hevent
  obtain ⟨entry, hentry, rfl⟩ := Option.map_eq_some_iff.1 hevent
  have hlt := (List.getElem?_eq_some_iff.1 hentry).1
  rw [List.getElem?_map, hentry, List.getElem?_map, List.getElem?_range hlt] at hids
  exact Option.some.inj hids

/-- The history is what is left of the appended events. -/
theorem Inv.history_eq_drop {s : Supervision} (h : Inv s) :
    s.state.history = (s.trace.map Prod.snd).drop (s.trace.length - maxEventHistory) := by
  rw [h.history, List.rtake, List.length_map]

/-- Its first event. -/
theorem Inv.head_history {s : Supervision} (h : Inv s) :
    s.state.history.head? = (s.trace.map Prod.snd)[s.trace.length - maxEventHistory]? := by
  rw [h.history_eq_drop, List.head?_drop]

/-- The arithmetic of a replay that need not start over: whatever has been dropped is at or below what the
subscriber has. -/
theorem dropped_not_missed {top dropped k lastEventId : ℕ} (hk : k < dropped) (hdropped : dropped < top)
    (hkept : ¬ min top (lastEventId + 1) < min top (dropped + 1)) :
    ¬ lastEventId < min top (k + 1) := by
  omega

/-- Every run with at most 2^64 + 1022 events, and every number to start from. -/
theorem replay_exact (actions : List Action)
    (hlength : (run {} actions).trace.length < 2 ^ 64 - 1 + maxEventHistory) (lastEventId : ℕ) :
    Exact (run {} actions) lastEventId := by
  have h : Inv (run {} actions) := inv_initial.run actions
  generalize run {} actions = s at h hlength
  by_cases hreset : (replayLocked s.state lastEventId).resetRequired = true
  · exact .inl hreset
  · refine .inr ?_
    show s.state.history.filter _ = _
    have hfew : s.trace.length - maxEventHistory < 2 ^ 64 - 1 := by
      have htop : 0 < 2 ^ 64 - 1 := by decide
      generalize 2 ^ 64 - 1 = top at hlength htop ⊢
      omega
    -- what has been dropped is not asked for
    have hdropped : ∀ event ∈ (s.trace.map Prod.snd).take (s.trace.length - maxEventHistory),
        ¬ lastEventId < event.id := by
      intro event hevent
      obtain ⟨k, hk⟩ := List.mem_iff_getElem?.1 hevent
      have hlt : k < s.trace.length - maxEventHistory := by
        have hk' := (List.getElem?_eq_some_iff.1 hk).1
        rw [List.length_take] at hk'
        omega
      rw [List.getElem?_take_of_lt hlt] at hk
      have hinside : s.trace.length - maxEventHistory < (s.trace.map Prod.snd).length := by
        rw [List.length_map]
        have hpos : 0 < maxEventHistory := by decide
        omega
      obtain ⟨first, hfirst⟩ : ∃ first,
          (s.trace.map Prod.snd)[s.trace.length - maxEventHistory]? = some first :=
        ⟨_, List.getElem?_eq_getElem hinside⟩
      have hkept : ¬ satAddU64 lastEventId 1 < first.id := by
        intro hlater
        refine hreset ?_
        unfold replayLocked
        dsimp only
        rw [h.head_history, hfirst]
        exact decide_eq_true hlater
      have hid := h.id_getElem hk
      have hfirstId := h.id_getElem hfirst
      rw [hfirstId] at hkept
      rw [hid]
      exact dropped_not_missed hlt hfew hkept
    have hnone : ((s.trace.map Prod.snd).take (s.trace.length - maxEventHistory)).filter
        (fun event => decide (lastEventId < event.id)) = [] :=
      List.filter_eq_nil_iff.2 fun event hevent => by
        rw [decide_eq_true_eq]
        exact hdropped event hevent
    conv_rhs => rw [← List.take_append_drop (s.trace.length - maxEventHistory) (s.trace.map Prod.snd)]
    rw [List.filter_append, hnone, List.nil_append, h.history_eq_drop]

/-- A subscriber that has the first event of a job gets the second. -/
theorem replay_second_phase :
    Exact (run {} ([.start, .launch 0 (.ok ()) (.ok ())] ++
      List.replicate 8 (.work 0 ⟨.ok (), none⟩))) 1 ∧
    (replayLocked (run {} ([.start, .launch 0 (.ok ()) (.ok ())] ++
      List.replicate 8 (.work 0 ⟨.ok (), none⟩))).state 1).events.map JobEvent.id = [2] :=
  ⟨replay_exact _ (by decide) 1, by decide⟩

/-- Once the largest number has been given out more than 1024 times, a subscriber that waits for it is not
told that the first of these events are gone. -/
theorem replay_loses_events : ¬ ∀ actions lastEventId, Exact (run {} actions) lastEventId := by
  intro hall
  obtain ⟨actions, -, hlength⟩ := exists_run_of_length (2 ^ 64 - 1 + maxEventHistory)
  have hexact := hall actions (2 ^ 64 - 1 - 1)
  have h : Inv (run {} actions) := inv_initial.run actions
  generalize run {} actions = s at h hlength hexact
  have hid : ∀ {k : ℕ} {event : JobEvent}, (s.trace.map Prod.snd)[k]? = some event →
      event.id = min (2 ^ 64 - 1) (k + 1) := h.id_getElem
  have htop : 0 < 2 ^ 64 - 1 := by decide
  have hsat : satAddU64 (2 ^ 64 - 1 - 1) 1 = 2 ^ 64 - 1 := by decide
  generalize 2 ^ 64 - 1 = top at *
  rcases hexact with hreset | hevents
  · -- the first number kept is the largest one, the next one for the subscriber
    obtain ⟨first, hfirst⟩ : ∃ first,
        (s.trace.map Prod.snd)[s.trace.length - maxEventHistory]? = some first := by
      refine ⟨_, List.getElem?_eq_getElem ?_⟩
      rw [List.length_map]
      have hpos : 0 < maxEventHistory := by decide
      omega
    unfold replayLocked at hreset
    dsimp only at hreset
    rw [h.head_history, hfirst, decide_eq_true_eq, hsat, hid hfirst] at hreset
    omega
  · -- more events carry the largest number than the history has places
    have hkept : (replayLocked s.state (top - 1)).events.length ≤ maxEventHistory := by
      refine (List.length_filter_le _ _).trans ?_
      rw [h.history_eq_drop, List.length_drop, List.length_map]
      omega
    have hlast : ((s.trace.map Prod.snd).drop (top - 1)).filter
        (fun event => decide (top - 1 < event.id)) = (s.trace.map Prod.snd).drop (top - 1) := by
      refine List.filter_eq_self.2 fun event hevent => ?_
      obtain ⟨k, hk⟩ := List.mem_iff_getElem?.1 hevent
      rw [List.getElem?_drop] at hk
      rw [decide_eq_true_eq, hid hk]
      omega
    have hmany : ((s.trace.map Prod.snd).drop (top - 1)).length ≤
        ((s.trace.map Prod.snd).filter fun event => decide (top - 1 < event.id)).length := by
      rw [← hlast]
      exact ((List.drop_sublist _ _).filter _).length_le
    rw [hevents] at hkept
    rw [List.length_drop, List.length_map] at hmany
    omega

end Kyth.Job.Supervision
