import Kyth.Installer.Staging
import Kyth.Installer.TableRestore

/-!
# Committed journals

A committed journal stays in the slot of the daemon until a new table replaces it. The routes that
remove an operation or discard the journal check the `committed` flag; those that add an operation
and the commit itself do not. `committed_frozen_iff` says which runs of requests leave a committed
journal alone all the same.
-/

namespace Kyth.Daemon

open Str Word Json Storage Journal Check

variable {request : Request} {journal : PartitionJournal}

/-- The slot after a run of requests. -/
def run (requests : List Request) : Option PartitionJournal :=
  requests.foldl (fun active request => (dispatch request active).2) none

/-- The operations that a commit of a journal starts to execute. -/
def attempted (env : Environment) (journal : PartitionJournal) : List PartitionOperation :=
  match prepareCommit env.world env.guard env.staged env.backupPath journal env.machine with
  | (.ok [], m) =>
      match (executeFrom env.world env.world.sectorSize journal.ops.length 0 ⟨m, false, journal⟩).1 with
      | none => journal.ops
      | some (index, _) => journal.ops.take (index + 1)
  | _ => []

/-- The operations that a request executes. -/
def executed (request : Request) (active : Option PartitionJournal) : List PartitionOperation :=
  match request.route, disk request.value, active with
  | .commit, some disk, some journal =>
      if isConfirmed request.value ∧ journal.disk = disk then
        attempted request.env (stampedJournal request.env journal)
      else []
  | _, _, _ => []

/-- A request that puts another journal in the slot. -/
def Replaces (request : Request) : Prop :=
  request.route = .newTable ∧
    ∃ disk' ∈ disk request.value, Passes (dispatchNewTable request disk')

/-- A run in which a committed journal keeps its operations, and no commit executes any of them
again, until a new table replaces it. -/
def StaysFrozen (requests : List Request) : Prop :=
  ∀ before later after journal, requests = before ++ later ++ after → run before = some journal →
    journal.committed = true → (∀ request ∈ later, ¬ Replaces request) →
      (∃ journal', run (before ++ later) = some journal' ∧ journal'.ops = journal.ops) ∧
        ∀ request ∈ after.head?, executed request (run (before ++ later)) = []

/-- A request that edits the journal in the slot or executes it: the body passes the checks of an
editing route, or a confirmed commit passes its preparation. -/
def Trespasses (request : Request) (journal : PartitionJournal) : Prop :=
  disk request.value = some journal.disk ∧
    match request.route with
    | .create | .delete | .resize | .format | .setMountpoint =>
        Passes (stagedOperation request journal.disk)
    | .commit => isConfirmed request.value = true ∧
        (prepareCommit request.env.world request.env.guard request.env.staged
          request.env.backupPath (stampedJournal request.env journal) request.env.machine).1 =
            .ok []
    | _ => False

/-! ### Single requests -/

/-- A journal that does not pass its preparation is not committed. -/
theorem commitResponse_of_unprepared (env : Environment)
    (h : (prepareCommit env.world env.guard env.staged env.backupPath (stampedJournal env journal)
      env.machine).1 ≠ .ok []) :
    (commitResponse journal (runCommit env journal)).2 = some journal := by
  unfold runCommit commitRequest
  rw [Action.bind_apply]
  split
  · rename_i errors m hprepared
    rw [hprepared] at h
    have hne : errors ≠ [] := fun hnil => h (congrArg Except.ok hnil)
    rw [if_pos hne]
    rfl
  · rfl

theorem attempted_of_unprepared {env : Environment}
    (h : (prepareCommit env.world env.guard env.staged env.backupPath journal env.machine).1 ≠
      .ok []) : attempted env journal = [] := by
  unfold attempted
  split
  · rename_i m hprepared
    rw [hprepared] at h
    exact absurd rfl h
  · rfl

/-- A commit that passes its preparation executes something. -/
theorem attempted_ne_nil {env : Environment}
    (h : (prepareCommit env.world env.guard env.staged env.backupPath journal env.machine).1 =
      .ok []) (hops : journal.ops ≠ []) : attempted env journal ≠ [] := by
  unfold attempted
  split
  · split
    · exact hops
    · rw [ne_eq, List.take_eq_nil_iff, not_or]
      exact ⟨Nat.succ_ne_zero _, hops⟩
  · rename_i hother
    exact (hother _ (Prod.ext h rfl)).elim

theorem stage_of_refused {body : ℕ → Body} {staged : Except String (OpKind × Value)}
    (h : ¬ Passes staged) : (stage journal body staged).2 = some journal := by
  cases staged with
  | error message => rfl
  | ok staged => exact absurd (passes_ok staged) h

/-- A request that does not trespass executes nothing. -/
theorem executed_of_not_trespasses (h : ¬ Trespasses request journal) :
    executed request (some journal) = [] := by
  unfold executed
  split
  · rename_i disk' journal' hroute hdisk hactive
    cases hactive
    split_ifs with hruns
    · refine attempted_of_unprepared fun hprepared => h ⟨?_, ?_⟩
      · rw [hdisk, hruns.2]
      · rw [hroute]
        exact ⟨hruns.1, hprepared⟩
    · rfl
  · rfl

/-- A request about the disk of a committed journal that does not trespass leaves the journal as
it is. -/
theorem dispatchOn_of_not_trespasses (hcommitted : journal.committed = true)
    (hdisk : disk request.value = some journal.disk)
    (hconfirmed : request.route = .commit → isConfirmed request.value = true)
    (hnew : request.route ≠ .newTable) (hother : request.route ≠ .other)
    (h : ¬ Trespasses request journal) :
    (dispatchOn request journal.disk journal).2 = some journal := by
  unfold Trespasses at h
  unfold dispatchOn
  cases hroute : request.route with
  | pendingRemove => simp only [hcommitted, if_true]
  | rollback => simp only [rollbackMetadata, hcommitted, if_true]
  | commit =>
    rw [hroute] at h
    exact commitResponse_of_unprepared _ fun hprepared =>
      h ⟨hdisk, hconfirmed hroute, hprepared⟩
  | newTable => exact absurd hroute hnew
  | other => exact absurd hroute hother
  | _ =>
    rw [hroute] at h
    exact stage_of_refused fun hpasses => h ⟨hdisk, hpasses⟩

/-- A request that does not trespass leaves a committed journal in the slot. -/
theorem dispatch_of_not_trespasses (hcommitted : journal.committed = true)
    (hreplaces : ¬ Replaces request) (h : ¬ Trespasses request journal) :
    (dispatch request (some journal)).2 = some journal := by
  unfold dispatch
  split
  · rfl
  · rename_i disk' hdisk
    split
    · rename_i hroute
      split
      · rfl
      · rename_i journal' hnew
        exact absurd ⟨hroute, disk', hdisk, journal', hnew⟩ hreplaces
    · rfl
    · rename_i route hnew hother
      split_ifs with hconfirm
      · rfl
      · unfold journalFor
        simp only
        split_ifs with hsame
        · simp only
          subst hsame
          refine dispatchOn_of_not_trespasses hcommitted hdisk ?_ ?_ ?_ h
          · intro hcommit
            by_contra hnot
            exact hconfirm ⟨hcommit, hnot⟩
          · exact fun hroute => hnew hroute
          · exact fun hroute => hother hroute
        · rfl

theorem stage_of_passes {body : ℕ → Body} {staged : Except String (OpKind × Value)}
    (h : Passes staged) :
    ∃ journal', (stage journal body staged).2 = some journal' ∧ journal'.ops ≠ journal.ops := by
  obtain ⟨⟨kind, params⟩, rfl⟩ := h
  exact ⟨_, rfl, fun hsame => by simpa [addOp] using congrArg List.length hsame⟩

theorem dispatch_of_disk (hdisk : disk request.value = some journal.disk)
    (hconfirmed : request.route = .commit → isConfirmed request.value = true)
    (hnew : request.route ≠ .newTable) (hother : request.route ≠ .other) :
    dispatch request (some journal) = dispatchOn request journal.disk journal := by
  have hself : journalFor (some journal) journal.disk = .ok journal := by simp [journalFor]
  have hnot : ¬ (request.route = .commit ∧ ¬ isConfirmed request.value = true) := fun hrefused =>
    hrefused.2 (hconfirmed hrefused.1)
  unfold dispatch
  rw [hdisk]
  cases hroute : request.route with
  | newTable => exact absurd hroute hnew
  | other => exact absurd hroute hother
  | _ =>
    rw [hroute] at hnot
    refine (if_neg hnot).trans ?_
    rw [hself]

/-- A request that trespasses edits the journal or executes it. -/
theorem dispatch_of_trespasses (h : Trespasses request journal) :
    ¬ Replaces request ∧
      ((∃ journal', (dispatch request (some journal)).2 = some journal' ∧
        journal'.ops ≠ journal.ops) ∨ executed request (some journal) ≠ []) := by
  obtain ⟨hdisk, h⟩ := h
  cases hroute : request.route with
  | create | delete | resize | format | setMountpoint =>
    rw [hroute] at h
    refine ⟨fun hreplaces => ?_, .inl ?_⟩
    · rw [hreplaces.1] at hroute
      cases hroute
    · rw [dispatch_of_disk hdisk (by simp [hroute]) (by simp [hroute]) (by simp [hroute]),
        dispatchOn, hroute]
      exact stage_of_passes h
  | commit =>
    rw [hroute] at h
    refine ⟨fun hreplaces => ?_, .inr ?_⟩
    · rw [hreplaces.1] at hroute
      cases hroute
    · have hrun : executed request (some journal) =
          attempted request.env (stampedJournal request.env journal) := by
        simp [executed, hroute, hdisk, h.1]
      obtain ⟨m₁, hm₁⟩ : ∃ m₁, prepareCommit request.env.world request.env.guard request.env.staged
          request.env.backupPath (stampedJournal request.env journal) request.env.machine =
            (.ok [], m₁) := ⟨_, Prod.ext h.2 rfl⟩
      obtain ⟨-, -, haccepted⟩ := prepareCommit_eq_ok_nil hm₁
      have hops : (stampedJournal request.env journal).ops ≠ [] := fun hnil => by
        rw [validate, if_pos hnil] at haccepted
        cases haccepted
      rw [hrun]
      exact attempted_ne_nil h.2 hops
  | _ =>
    rw [hroute] at h
    exact h.elim

/-! ### Runs -/

theorem run_append (requests : List Request) (request : Request) :
    run (requests ++ [request]) = (dispatch request (run requests)).2 := by
  simp [run]

/-- While no request trespasses or replaces it, a committed journal stays in the slot as it is. -/
theorem run_eq_of_not_trespasses {before later : List Request} (hrun : run before = some journal)
    (hcommitted : journal.committed = true) (hreplaces : ∀ request ∈ later, ¬ Replaces request)
    (h : ∀ earlier request rest, later = earlier ++ request :: rest →
      run (before ++ earlier) = some journal → ¬ Trespasses request journal) :
    run (before ++ later) = some journal := by
  induction later using List.reverseRecOn with
  | nil => simpa using hrun
  | append_singleton later request ih =>
    have hlater : run (before ++ later) = some journal := by
      refine ih (fun other hother => hreplaces other (List.mem_append_left _ hother)) ?_
      intro earlier other rest hsplit
      exact h earlier other (rest ++ [request]) (by simp [hsplit])
    rw [← List.append_assoc, run_append, hlater]
    exact dispatch_of_not_trespasses hcommitted (hreplaces request (by simp))
      (h later request [] rfl hlater)

/-- A committed journal keeps its operations and is not executed again until a new table replaces
it, exactly when no request edits or executes the journal in the slot while it is committed. -/
theorem committed_frozen_iff (requests : List Request) :
    StaysFrozen requests ↔
      ∀ before request after journal, requests = before ++ request :: after →
        run before = some journal → journal.committed = true → ¬ Trespasses request journal := by
  constructor
  · intro hfrozen before request after journal hrequests hrun hcommitted htrespasses
    obtain ⟨hreplaces, ⟨journal', hjournal', hops⟩ | hexecuted⟩ := dispatch_of_trespasses htrespasses
    · obtain ⟨⟨journal'', hjournal'', hsame⟩, -⟩ := hfrozen before [request] after journal
        (by simp [hrequests]) hrun hcommitted (by simpa using hreplaces)
      rw [run_append, hrun, hjournal'] at hjournal''
      cases hjournal''
      exact hops hsame
    · obtain ⟨-, hidle⟩ := hfrozen before [] (request :: after) journal (by simpa using hrequests)
        hrun hcommitted (by simp)
      rw [List.append_nil, hrun] at hidle
      exact hexecuted (hidle request rfl)
  · intro h before later after journal hrequests hrun hcommitted hreplaces
    have hstays : run (before ++ later) = some journal := by
      refine run_eq_of_not_trespasses hrun hcommitted hreplaces ?_
      intro earlier request rest hsplit hearlier
      exact h (before ++ earlier) request (rest ++ after) journal (by simp [hrequests, hsplit])
        hearlier hcommitted
    refine ⟨⟨journal, hstays, rfl⟩, fun request hrequest => ?_⟩
    obtain ⟨rest, rfl⟩ := List.head?_eq_some_iff.1 hrequest
    rw [hstays]
    exact executed_of_not_trespasses (h (before ++ later) request rest journal hrequests hstays
      hcommitted)

/-! ### A second commit -/

/-- A machine on which nothing fails and the disk has a Btrfs partition of 1 GiB at 1 GiB. -/
def rootDiskWorld : World where
  fault _ := none
  lsblk _ _ _ := ⟨[{
    name := some "/dev/sda", deviceType := some "disk", size := some 0x100000000
    children := [{
      name := some "/dev/sda2", partn := some 2, size := some 0x40000000
      deviceType := some "part", pkname := some "/dev/sda", fstype := some "btrfs"
      start := some 0x200000, ro := some false, partuuid := some "0d2c3f7a-02" }] }]⟩
  document _ := .null
  others := ∅
  number _ := 2
  newName _ := "/dev/sda1"
  details name := { name, sizeBytes := 0, startBytes := 0 }
  sectorSize := 512
  diskSizeBytes := 0x100000000
  sfdiskBinary := .ok "/usr/sbin/sfdisk"

/-- The machine of a request on that disk. -/
def rootDiskEnvironment : Environment where
  identity := some ⟨none, some "disk", none⟩
  records := .ok [{ name := "/dev/sda2", sizeBytes := 0x40000000, startBytes := 0x40000000 }]
  world := rootDiskWorld
  staged := "/tmp/kyth/staged"
  backupPath := "/tmp/kyth/table"
  machine := { tableType := "dos", slots := [⟨"/dev/sda2", 0x40000000, 0x80000000, "btrfs"⟩] }

/-- A request on that disk with further fields in its body. -/
def rootDiskRequest (route : Route) (fields : List (String × Value)) : Request :=
  { route, value := .object (("disk", .string "/dev/sda") :: fields), env := rootDiskEnvironment }

/-- The confirmed commit of what is staged on that disk. -/
def rootDiskCommit : Request :=
  rootDiskRequest .commit
    [("confirm_erase", .bool true), ("acknowledged-irreversible", .bool true)]

/-- Requests that commit the Btrfs partition as the root and leave the table alone. -/
def rootDiskRequests : List Request :=
  [rootDiskRequest .newTable [("table_type", .string "msdos")],
   rootDiskRequest .pendingRemove [("index", .nat 0)],
   rootDiskRequest .setMountpoint
    [("partition", .string "/dev/sda2"), ("mountpoint", .string "/")],
   rootDiskCommit]

/-- The journal that they leave in the slot. -/
theorem run_rootDiskRequests :
    ∃ journal, run rootDiskRequests = some journal ∧ journal.committed = true ∧
      journal.ops.map PartitionOperation.kind = [.setMountpoint] := by
  have hslot : (run rootDiskRequests).map (fun journal =>
      (journal.committed, journal.ops.map PartitionOperation.kind)) =
        some (true, [.setMountpoint]) := by decide
  obtain ⟨journal, hrun, heq⟩ := Option.map_eq_some_iff.1 hslot
  exact ⟨journal, hrun, congrArg Prod.fst heq, congrArg Prod.snd heq⟩

/-- A committed journal takes a deletion, and a second commit executes it again. -/
theorem committed_journal_edited_and_executed :
    ¬ StaysFrozen (rootDiskRequests ++
        [rootDiskRequest .delete [("partition", .string "/dev/sda2")]]) ∧
      ¬ StaysFrozen (rootDiskRequests ++ [rootDiskCommit]) := by
  obtain ⟨journal, hrun, hcommitted, hkinds⟩ := run_rootDiskRequests
  constructor
  · intro hfrozen
    obtain ⟨⟨journal', hrun', hops⟩, -⟩ := hfrozen rootDiskRequests _ [] journal
      (List.append_nil _).symm hrun hcommitted (by simp [Replaces, rootDiskRequest])
    have hslot : (run (rootDiskRequests ++
        [rootDiskRequest .delete [("partition", .string "/dev/sda2")]])).map (fun journal =>
          journal.ops.map PartitionOperation.kind) = some [.setMountpoint, .delete] := by
      decide
    rw [hrun', Option.map_some, hops, hkinds] at hslot
    simp at hslot
  · intro hfrozen
    obtain ⟨-, hidle⟩ := hfrozen rootDiskRequests [] [rootDiskCommit] journal (by simp) hrun
      hcommitted (by simp)
    have hexecuted : (executed rootDiskCommit (run rootDiskRequests)).length = 1 := by
      decide
    rw [List.append_nil] at hidle
    rw [hidle rootDiskCommit rfl] at hexecuted
    cases hexecuted

end Kyth.Daemon
