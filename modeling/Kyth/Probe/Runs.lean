import Kyth.Probe.Cache

/-!
# The age of what the probe cache serves (`probe_bin.rs`)

A run of the probe collects sections; a user run first copies what the system cache holds and is not too
old. Both stamp all their sections with the time of the write. The runs here overlap in any order: a
process starts, loads its cache file, and replaces it. Each datum carries the time at which it was
collected, which no function of the probe looks at.

`read_recent_of_prompt` is about every history whose runs stamp a section when they collect it;
`copied_status_served_stale` is a history with a copy that is served long after.
-/

namespace Kyth.Probe

variable {δ β : Type}

/-! ### A run -/

/-- A run of `kyth-probe`: whether it is the system run, its environment, whether it can make the runtime
directory, and what its collectors give for a section (`none`: nothing is collected for it). -/
structure Run (δ : Type) where
  system : Bool
  login : Login
  creatable : Bool
  live : Collected δ

/-- The sections that `main` skips: what is fresh and cacheable, and what the system run defers. -/
def Run.skips (run : Run δ) (fresh : String → Option δ) (key : String) : Bool :=
  ((fresh key).isSome && cacheableSections.contains key) ||
    (run.system && deferredSystemSections.contains key)

/-- `collect_snapshot_skipping`. -/
def collectSnapshotSkipping (live : Collected δ) (skips : String → Bool) : Collected δ :=
  fun key => if skips key then none else live key

/-- `merge_fresh_sections`. -/
def mergeFreshSections (sections : Collected δ) (fresh : String → Option δ) : Collected δ :=
  fun key =>
    match fresh key with
    | some data => some (some data)
    | none => sections key

/-- The sections that `main` copies. -/
def Run.fresh (run : Run δ) (files : Files δ) (now : ℚ) : String → Option δ :=
  if run.system then fun _ => none else freshSystemSectionsIn (files systemCachePath) now

/-- The sections that `main` writes. -/
def Run.sections (run : Run δ) (files : Files δ) (now : ℚ) : Collected δ :=
  mergeFreshSections (collectSnapshotSkipping run.live (run.skips (run.fresh files now)))
    (run.fresh files now)

/-- The path that `main` writes to. -/
def Run.target (run : Run δ) : String := defaultWritePath run.system run.login run.creatable

/-! ### The processes of a machine -/

/-- How far a process has come. -/
inductive Process (δ : Type)
  | idle
  | collected (path : String) (sections : Collected δ)
  | stamped (path : String) (document : Sections δ)

/-- The cache files and the probe processes. -/
structure Machine (δ : Type) where
  files : Files δ
  processes : ℕ → Process δ

/-- What happens on a machine: a process copies and collects, a process loads its file and stamps its
sections, or a process replaces its file. -/
inductive Event (δ : Type)
  | collect (i : ℕ) (run : Run δ) (now : ℚ)
  | stamp (i : ℕ) (now : ℚ)
  | replace (i : ℕ)

/-- The machine without any cache. -/
def Machine.new : Machine δ := ⟨fun _ => none, fun _ => .idle⟩

/-- An event; a process that is not at its turn does nothing. -/
def Machine.step (m : Machine δ) : Event δ → Machine δ
  | .collect i run now =>
    match m.processes i with
    | .idle =>
      { m with
        processes := Function.update m.processes i (.collected run.target (run.sections m.files now)) }
    | _ => m
  | .stamp i now =>
    match m.processes i with
    | .collected path sections =>
      { m with
        processes :=
          Function.update m.processes i (.stamped path (updatedDocument sections now (m.files path))) }
    | _ => m
  | .replace i =>
    match m.processes i with
    | .stamped path document =>
      ⟨Function.update m.files path (some document), Function.update m.processes i .idle⟩
    | _ => m

/-- A whole history. -/
def Machine.after (m : Machine δ) (events : List (Event δ)) : Machine δ := events.foldl Machine.step m

/-! ### The age of the data -/

/-- A datum with the time at which it was collected. -/
structure Sample (β : Type) where
  value : β
  collectedAt : ℚ
  deriving DecidableEq, Repr

/-- No section that readers accept is stamped later than it was collected. -/
def PromptAt (m : Machine (Sample β)) : Event (Sample β) → Prop
  | .stamp i now =>
    ∀ path sections, m.processes i = .collected path sections →
      ∀ key sample, (diskTtl key).isSome → sections key = some (some sample) → now ≤ sample.collectedAt
  | _ => True

/-- Every run of a history stamps what it writes when it collects it. -/
def Prompt : Machine (Sample β) → List (Event (Sample β)) → Prop
  | _, [] => True
  | m, event :: events => PromptAt m event ∧ Prompt (m.step event) events

/-- The times of the entries of a file are no later than their data. -/
def TrueTimes (file : Option (Sections (Sample β))) : Prop :=
  ∀ key ts sample, (diskTtl key).isSome → entryOf file key = some ⟨some ts, some sample⟩ →
    ts ≤ sample.collectedAt

/-- All files and all documents about to be written have true times. -/
structure Machine.TrueTimes (m : Machine (Sample β)) : Prop where
  files : ∀ path, Probe.TrueTimes (m.files path)
  stamped : ∀ i path document, m.processes i = .stamped path document →
    Probe.TrueTimes (some document)

section Steps

variable {m : Machine (Sample β)} {event : Event (Sample β)} {events : List (Event (Sample β))}

theorem trueTimes_none : TrueTimes (none : Option (Sections (Sample β))) := by
  intro key ts sample _ h
  cases h

/-- An update keeps the times true when what it stamps was collected no earlier. -/
theorem trueTimes_updatedDocument {sections : Collected (Sample β)} {now : ℚ}
    {file : Option (Sections (Sample β))} (h : TrueTimes file)
    (hnow : ∀ key sample, (diskTtl key).isSome → sections key = some (some sample) →
      now ≤ sample.collectedAt) :
    TrueTimes (some (updatedDocument sections now file)) := by
  intro key ts sample hkey hentry
  rw [entryOf_updatedDocument] at hentry
  cases hsection : sections key with
  | none =>
    rw [hsection] at hentry
    exact h key ts sample hkey hentry
  | some data =>
    simp only [hsection, Option.some.injEq, Entry.mk.injEq] at hentry
    obtain ⟨rfl, rfl⟩ := hentry
    exact hnow key sample hkey hsection

theorem trueTimes_new : (Machine.new : Machine (Sample β)).TrueTimes where
  files _ := trueTimes_none
  stamped _ _ _ h := by cases h

/-- A process that is set to something without a document leaves the documents of the others. -/
theorem stamped_update {i j : ℕ} {next : Process (Sample β)} {path : String}
    {document : Sections (Sample β)}
    (h : Function.update m.processes i next j = .stamped path document) :
    next = .stamped path document ∨ m.processes j = .stamped path document := by
  by_cases hij : j = i
  · subst hij
    rw [Function.update_self] at h
    exact .inl h
  · rw [Function.update_of_ne hij] at h
    exact .inr h

theorem Machine.TrueTimes.step (h : m.TrueTimes) (hprompt : PromptAt m event) :
    (m.step event).TrueTimes := by
  cases event with
  | collect i run now =>
    rw [Machine.step]
    split
    · refine ⟨h.files, fun j path document hj => ?_⟩
      rcases stamped_update hj with hnext | hj
      · cases hnext
      · exact h.stamped j path document hj
    · exact h
  | stamp i now =>
    rw [Machine.step]
    split
    · rename_i path sections hprocess
      refine ⟨h.files, fun j path' document hj => ?_⟩
      rcases stamped_update hj with hnext | hj
      · -- The document of this update: new entries are stamped in time, the others stood in the file.
        cases hnext
        exact trueTimes_updatedDocument (h.files path) (hprompt path sections hprocess)
      · exact h.stamped j path' document hj
    · exact h
  | replace i =>
    rw [Machine.step]
    split
    · rename_i path document hprocess
      refine ⟨fun path' => ?_, fun j path' document' hj => ?_⟩
      · show Probe.TrueTimes (Function.update m.files path (some document) path')
        by_cases hpath : path' = path
        · subst hpath
          rw [Function.update_self]
          exact h.stamped i path' document hprocess
        · rw [Function.update_of_ne hpath]
          exact h.files path'
      · rcases stamped_update hj with hnext | hj
        · cases hnext
        · exact h.stamped j path' document' hj
    · exact h

theorem Machine.TrueTimes.after (h : m.TrueTimes) (hprompt : Prompt m events) :
    (m.after events).TrueTimes := by
  induction events generalizing m with
  | nil => exact h
  | cons event events ih => exact ih (h.step hprompt.1) hprompt.2

end Steps

/-- In a history whose runs stamp their sections as they collect them, a reader gets only what was
collected within the age that the section may have. -/
theorem read_recent_of_prompt {events : List (Event (Sample β))}
    (hprompt : Prompt Machine.new events) {key : String} {now ttl : ℚ} {login : Login}
    {sample : Sample β} (httl : diskTtl key = some ttl)
    (hread : readSection key now login (Machine.new.after events).files = some sample) :
    now - ttl ≤ sample.collectedAt := by
  obtain ⟨path, -, ts, hentry, -, hage⟩ := readSectionIn_eq_some hread httl
  have htrue : ts ≤ sample.collectedAt :=
    (trueTimes_new.after hprompt).files path key ts sample (by rw [httl]; rfl) hentry
  linarith

/-! ### A status that is copied -/

/-- The time of the clock at an event that reads it. -/
def Event.time : Event δ → Option ℚ
  | .collect _ _ now => some now
  | .stamp _ now => some now
  | .replace _ => none

/-- A logged-in user. -/
def desktopUser : Login where
  runtimeDir := some "/run/user/1000"
  cacheHome := none
  home := some "/home/kyth"
  uid := 1000

/-- The system run, which collects the status of the deployments at the given time. -/
def systemRun (time : ℚ) : Run (Sample String) where
  system := true
  login := { runtimeDir := none, cacheHome := none, home := none, uid := 0 }
  creatable := false
  live key := if key = "bootc-status-data" then some (some ⟨"deployments", time⟩) else none

/-- A user run, which finds nothing to collect by itself. -/
def userRun : Run (Sample String) where
  system := false
  login := desktopUser
  creatable := true
  live _ := none

/-- One system run. -/
def systemHistory : List (Event (Sample String)) := [.collect 0 (systemRun 0) 0, .stamp 0 0, .replace 0]

/-- A system run, and a user run ninety seconds later. -/
def copyingHistory : List (Event (Sample String)) :=
  systemHistory ++ [.collect 1 userRun 90, .stamp 1 90, .replace 1]

theorem prompt_systemHistory : Prompt Machine.new systemHistory := by
  refine ⟨trivial, ?_, trivial, trivial⟩
  intro path sections hprocess key sample _ hsection
  have hcollected : Process.collected (systemRun 0).target ((systemRun 0).sections (fun _ => none) 0) =
      .collected path sections := hprocess
  cases hcollected
  have hlive : (systemRun 0).live key = some (some sample) := by
    by_cases hskips : (systemRun 0).skips (fun _ => none) key
    · have hnone : (systemRun 0).sections (fun _ => none) 0 key = none := if_pos hskips
      rw [hnone] at hsection
      cases hsection
    · have hlive : (systemRun 0).sections (fun _ => none) 0 key = (systemRun 0).live key :=
        if_neg hskips
      rwa [hlive] at hsection
  obtain ⟨-, hsample⟩ := Option.ite_none_right_eq_some.1 hlive
  cases hsample
  exact le_refl _

/-- A minute after the system run a reader gets its status. -/
theorem read_recent_systemHistory :
    readSection "bootc-status-data" 60 desktopUser (Machine.new.after systemHistory).files =
        some ⟨"deployments", 0⟩ ∧ (60 : ℚ) - 90 ≤ 0 := by
  have hread : readSection "bootc-status-data" 60 desktopUser
      (Machine.new.after systemHistory).files = some ⟨"deployments", 0⟩ := by decide +kernel
  exact ⟨hread, read_recent_of_prompt prompt_systemHistory (by decide) hread⟩

/-- Three minutes after it was collected a reader still gets the status that the user run has copied,
with a clock that never goes back. -/
theorem copied_status_served_stale :
    (copyingHistory.filterMap Event.time).Pairwise (· ≤ ·) ∧
      diskTtl "bootc-status-data" = some 90 ∧
      ∃ sample, readSection "bootc-status-data" 180 desktopUser
        (Machine.new.after copyingHistory).files = some sample ∧ sample.collectedAt < 180 - 90 := by
  refine ⟨by decide, by decide, ⟨"deployments", 0⟩, by decide +kernel, ?_⟩
  norm_num

end Kyth.Probe
