import Kyth.Installer.Commit

/-!
# Runs of a commit

An operation moves the machine along every preorder that its requests keep
(`executeOperation_frame`), however it ends; `Reaches.frame` carries this over to whole runs.

A commit that fails at an index first ran the operations before it (`Reaches`), then the failing
one. `commitRequest_cases` reads this off the answer of the commit.
-/

namespace Kyth.Journal

open Str Word Json Storage Disk
open Kyth.Action (check Frame bind_eq_ok)
open Kyth.Interval

variable {w : World} {m m' : Machine} {journal : PartitionJournal} {sectorSize k : ℕ}
  {R : Machine → Machine → Prop}

/-! ### Frames -/

/-- A request that saves or restores the partition table. -/
def isTableCopy : DiskOperationInput → Prop
  | .backupTable _ _ | .restoreTable _ _ => True
  | _ => False

/-- A request that writes inside a partition. -/
def writesData : DiskOperationInput → Prop
  | .filesystemResize _ _ _ _ | .formatFilesystem _ _ _ _ => True
  | _ => False

/-- A run whose machine moves along a relation. -/
def Along (R : Machine → Machine → Prop) (r r' : Run) : Prop := R r.machine r'.machine

instance [Std.Refl R] : Std.Refl (Along R) := ⟨fun r => refl_of R r.machine⟩

instance [IsTrans Machine R] : IsTrans Run (Along R) :=
  ⟨fun _ _ _ h h' => IsTrans.trans (r := R) _ _ _ h h'⟩

theorem onMachine_frame {α : Type} {x : Exec α} (hx : Frame R x) : Frame (Along R) (onMachine x) :=
  fun r => hx r.machine

section Frames

variable [Std.Refl R] [IsTrans Machine R] (hcall : ∀ m : Machine, R m { m with clock := m.clock + 1 })

include hcall

theorem call_frame : Frame R (call w) :=
  Frame.bind Frame.get fun m => Frame.bind (Frame.modify hcall) fun _ => by
    split
    · exact Frame.throw _
    · exact Frame.pure _

theorem runDiskOperation_frame {operation : DiskOperationInput}
    (hrequested : ∀ m : Machine, R m { m with requested := operation :: m.requested })
    (hplanned : ∀ (m : Machine) plan, buildPlan (probes w m) operation = .ok plan →
      R m { m with planned := (operation, plan) :: m.planned })
    (hcompleted : ∀ m : Machine,
      R m { m.apply w operation with completed := operation :: m.completed }) :
    Frame R (runDiskOperation w operation) := by
  refine Frame.bind (Frame.modify hrequested) fun _ m => Frame.check_bind_at fun plan hplan => ?_
  refine IsTrans.trans (r := R) _ _ _ (hplanned m plan hplan) ?_
  refine (Frame.bind (call_frame hcall) fun _ => Frame.bind (Frame.modify hcompleted) fun _ => ?_ :
    Frame R (call w >>= _)) _
  split
  · exact call_frame hcall
  · exact Frame.pure _

theorem runtimePartitions_frame : Frame R (runtimePartitions w) :=
  Frame.bind (call_frame hcall) fun _ => Frame.bind Frame.get fun _ => Frame.pure _

theorem partuuidOf_frame {disk : String} {number : UInt32} : Frame R (partuuidOf w disk number) :=
  Frame.bind (call_frame hcall) fun _ => Frame.bind Frame.get fun _ => Frame.check _

theorem findNewPartition_frame {disk : String} {before : StringMap UInt32} {start size : UInt64} :
    Frame R (findNewPartition w disk before start size) := by
  refine Frame.ite_throw (Frame.bind (call_frame hcall) fun _ => Frame.bind Frame.get fun m => ?_)
  split
  · exact Frame.pure _
  · exact Frame.throw _

theorem runtimePartitionRecords_frame {disk : String} :
    Frame R (runtimePartitionRecords w disk) :=
  Frame.ite_throw (Frame.bind (call_frame hcall) fun _ => Frame.bind (Frame.check _) fun _ =>
    Frame.bind Frame.get fun _ => Frame.pure _)

section Quiet

-- the operations that only probe the machine and change the table
variable (hrun : ∀ operation, ¬ isTableCopy operation → ¬ writesData operation →
  Frame R (runDiskOperation w operation))

include hrun

theorem setFlag_frame {disk partition flag : String} : Frame R (setFlag w disk partition flag) :=
  Frame.bind (runtimePartitions_frame hcall) fun _ => Frame.bind (Frame.check _) fun _ =>
    Frame.bind (partuuidOf_frame hcall) fun _ => hrun _ id id

theorem executeNewTable_frame {disk : String} {params : Value} :
    Frame R (executeNewTable w disk sectorSize params) := by
  refine Frame.bind (hrun _ id id) fun _ => Frame.ite ?_ (Frame.pure _)
  exact Frame.bind (runtimePartitions_frame hcall) fun _ => Frame.bind (hrun _ id id) fun _ =>
    Frame.bind (findNewPartition_frame hcall) fun _ =>
    Frame.bind (setFlag_frame hcall hrun) fun _ => Frame.pure _

theorem executeDelete_frame {disk target : String} {before : StringMap UInt32} :
    Frame R (executeDelete w disk target before) :=
  Frame.bind (Frame.check _) fun _ => Frame.bind (partuuidOf_frame hcall) fun _ =>
    Frame.bind (hrun _ id id) fun _ => Frame.pure _

theorem executeSetMountpoint_frame {disk target : String} {params : Value}
    {before : StringMap UInt32} : Frame R (executeSetMountpoint w disk target params before) :=
  Frame.bind (Frame.check _) fun _ => Frame.bind (partuuidOf_frame hcall) fun _ =>
    Frame.ite (Frame.bind (hrun _ id id) fun _ => Frame.pure _) (Frame.pure _)

end Quiet

section Loud

-- every request of an operation; the copies of the table belong to the commit around it
variable (hrun : ∀ operation, ¬ isTableCopy operation → Frame R (runDiskOperation w operation))

include hrun

omit hcall in
theorem shrinkFilesystem_frame {partition fs : String} {newSize : UInt64} :
    Frame R (shrinkFilesystem w partition fs newSize) := by
  refine Frame.check_bind fun requests hrequests => Frame.forM fun request hrequest => hrun _ ?_
  unfold shrinkRequests at hrequests
  split_ifs at hrequests <;> cases hrequests
  · simp only [List.map_cons, List.map_nil, List.mem_cons, List.not_mem_nil, or_false] at hrequest
    rcases hrequest with rfl | rfl | rfl | rfl <;> exact id
  · simp only [List.mem_cons, List.not_mem_nil, or_false] at hrequest
    rcases hrequest with rfl | rfl <;> exact id

theorem executeCreate_frame {disk : String} {params : Value} {before : StringMap UInt32} :
    Frame (Along R) (executeCreate w disk sectorSize params before) := by
  have hquiet := fun operation hcopy (_ : ¬ writesData operation) => hrun operation hcopy
  refine Frame.bind (onMachine_frame (hrun _ id)) fun _ =>
    Frame.bind (onMachine_frame (findNewPartition_frame hcall)) fun created =>
    Frame.bind (Frame.modify fun r => refl_of R r.machine) fun _ => ?_
  refine Frame.ite (Frame.bind (onMachine_frame (hrun _ id)) fun _ => ?_) ?_
  all_goals
    exact Frame.ite (Frame.bind (onMachine_frame (setFlag_frame hcall hquiet)) fun _ =>
      Frame.pure _) (Frame.pure _)

theorem shrinkAndResize_frame {disk target fs : String} {start newSize : UInt64} :
    Frame (Along R) (shrinkAndResize w disk target fs start newSize sectorSize) :=
  Frame.bind (onMachine_frame (shrinkFilesystem_frame hrun)) fun _ =>
    Frame.bind (Frame.modify fun r => refl_of R r.machine) fun _ =>
    Frame.bind (onMachine_frame (runtimePartitions_frame hcall)) fun _ =>
    Frame.bind (Frame.check _) fun _ =>
    Frame.bind (onMachine_frame (partuuidOf_frame hcall)) fun _ =>
    Frame.bind (onMachine_frame (hrun _ id)) fun _ => Frame.pure _

theorem executeResize_frame {disk target : String} {params : Value} :
    Frame (Along R) (executeResize w disk target sectorSize params) :=
  Frame.ite_throw (Frame.bind (onMachine_frame (runtimePartitionRecords_frame hcall)) fun _ =>
    Frame.bind (Frame.check _) fun _ => Frame.bind (Frame.check _) fun _ =>
    shrinkAndResize_frame hcall hrun)

omit hcall in
theorem executeFormat_frame {target : String} {params : Value} :
    Frame (Along R) (executeFormat w journal target params) := by
  refine Frame.ite (Frame.bind (Frame.modify fun r => refl_of R r.machine) fun _ => ?_) ?_
  all_goals exact Frame.bind (onMachine_frame (hrun _ id)) fun _ => Frame.pure _

/-- An operation moves the machine along every preorder that its requests keep. -/
theorem executeOperation_frame {kind : OpKind} :
    Frame (Along R) (executeOperation w journal sectorSize kind) := by
  have hquiet := fun operation hcopy (_ : ¬ writesData operation) => hrun operation hcopy
  refine Frame.bind Frame.get fun _ =>
    Frame.bind (onMachine_frame (runtimePartitions_frame hcall)) fun _ => ?_
  split
  · exact onMachine_frame (executeNewTable_frame hcall hquiet)
  · exact executeCreate_frame hcall hrun
  · exact onMachine_frame (executeDelete_frame hcall hquiet)
  · exact executeResize_frame hcall hrun
  · exact executeFormat_frame hrun
  · exact onMachine_frame (executeSetMountpoint_frame hcall hquiet)
  · exact Frame.throw _

/-- So does a turn of the loop. -/
theorem executeAt_frame {index : ℕ} {s s' : CommitState} {out : Except String String}
    (h : executeAt w sectorSize index s = (out, s')) : R s.machine s'.machine := by
  unfold executeAt at h
  split at h
  · cases h
    exact refl_of R _
  · rename_i op _
    have hframe : Frame (Along R) (executeOperation w s.journal sectorSize op.kind) :=
      executeOperation_frame hcall hrun
    cases h
    exact hframe ⟨s.machine, s.irreversible, op.params⟩

end Loud

end Frames

/-! ### The loop -/

/-- The states between the operations of a run in which none has failed yet. -/
inductive Reaches (w : World) (sectorSize : ℕ) (s₀ : CommitState) : ℕ → CommitState → Prop
  | zero : Reaches w sectorSize s₀ 0 s₀
  | succ {k : ℕ} {s s' : CommitState} {target : String} (h : Reaches w sectorSize s₀ k s)
      (hok : executeAt w sectorSize k s = (.ok target, s')) : Reaches w sectorSize s₀ (k + 1) s'

theorem Reaches.frame [Std.Refl R] [IsTrans Machine R]
    (hcall : ∀ m : Machine, R m { m with clock := m.clock + 1 })
    (hrun : ∀ operation, ¬ isTableCopy operation → Frame R (runDiskOperation w operation))
    {s₀ s : CommitState} (h : Reaches w sectorSize s₀ k s) : R s₀.machine s.machine := by
  induction h with
  | zero => exact refl_of R _
  | @succ k s s' target _ hok ih =>
    exact IsTrans.trans _ _ _ ih (executeAt_frame hcall hrun hok)

/-- A turn of the loop changes the parameters of its own operation only. -/
theorem executeAt_journal (w : World) (sectorSize index : ℕ) (s : CommitState) :
    (executeAt w sectorSize index s).2.journal.disk = s.journal.disk ∧
      ∀ i, i ≠ index →
        (executeAt w sectorSize index s).2.journal.ops[i]? = s.journal.ops[i]? := by
  unfold executeAt
  split
  · exact ⟨rfl, fun _ _ => rfl⟩
  · exact ⟨rfl, fun i hi => List.getElem?_set_ne hi.symm⟩

/-- The operations that have not run yet are those of the journal. -/
theorem Reaches.journal_eq {s₀ s : CommitState} (h : Reaches w sectorSize s₀ k s) :
    s.journal.disk = s₀.journal.disk ∧ ∀ i, k ≤ i → s.journal.ops[i]? = s₀.journal.ops[i]? := by
  induction h with
  | zero => exact ⟨rfl, fun _ _ => rfl⟩
  | @succ k s s' target _ hok ih =>
    obtain ⟨hdisk, hops⟩ := executeAt_journal w sectorSize k s
    rw [hok] at hdisk hops
    exact ⟨hdisk.trans ih.1, fun i hi => (hops i (by omega)).trans (ih.2 i (by omega))⟩

/-- The loop stops at the first operation that fails. -/
theorem Reaches.executeFrom {s₀ s after : CommitState} {todo index : ℕ} {message : String}
    (h : Reaches w sectorSize s₀ index s)
    (hfrom : executeFrom w sectorSize todo index s = (some (k, message), after)) :
    ∃ before, Reaches w sectorSize s₀ k before ∧
      executeAt w sectorSize k before = (.error message, after) := by
  induction todo generalizing index s with
  | zero => cases hfrom
  | succ todo ih =>
    rw [Journal.executeFrom] at hfrom
    split at hfrom
    · rename_i target s' hok
      exact ih (h.succ hok) hfrom
    · rename_i error s' herror
      cases hfrom
      exact ⟨s, h, herror⟩

/-- Without a failure the loop runs every operation. -/
theorem Reaches.executeFrom_none {s₀ s after : CommitState} {todo index : ℕ}
    (h : Reaches w sectorSize s₀ index s)
    (hfrom : Journal.executeFrom w sectorSize todo index s = (none, after)) :
    Reaches w sectorSize s₀ (index + todo) after := by
  induction todo generalizing index s with
  | zero => cases hfrom; exact h
  | succ todo ih =>
    rw [Journal.executeFrom] at hfrom
    split at hfrom
    · rename_i target s' hok
      have hafter := ih (h.succ hok) hfrom
      rwa [Nat.add_right_comm] at hafter
    · cases hfrom

/-! ### The commit -/

/-- A state of a commit that passed its preparation, before the operation at an index. -/
def CommitReaches (w : World) (guard : Except String Unit) (staged backupPath : String)
    (journal : PartitionJournal) (m₀ : Machine) (k : ℕ) (s : CommitState) : Prop :=
  ∃ m₁, prepareCommit w guard staged backupPath journal m₀ = (.ok [], m₁) ∧
    Reaches w w.sectorSize ⟨m₁, false, journal⟩ k s

/-- A commit that fails at an index. -/
structure FailsAt (w : World) (guard : Except String Unit) (staged backupPath : String)
    (journal : PartitionJournal) (m₀ : Machine) (k : ℕ) (message : String)
    (before after : CommitState) : Prop where
  reaches : CommitReaches w guard staged backupPath journal m₀ k before
  failed : executeAt w w.sectorSize k before = (.error message, after)

variable {guard : Except String Unit} {staged backupPath : String} {result : CommitResult}

/-- The three ways a prepared commit ends. -/
theorem commitRequest_cases
    (h : commitRequest w guard staged backupPath journal m = (.ok result, m')) :
    (∃ errors, prepareCommit w guard staged backupPath journal m = (.ok errors, m') ∧
        result = .invalid errors) ∨
      (∃ m₁ s, prepareCommit w guard staged backupPath journal m = (.ok [], m₁) ∧
        Reaches w w.sectorSize ⟨m₁, false, journal⟩ journal.ops.length s ∧ m' = s.machine) ∨
      ∃ k message before after,
        FailsAt w guard staged backupPath journal m k message before after ∧
          rollBack w backupPath message after after.machine = (.ok result, m') := by
  rw [commitRequest, bind_eq_ok] at h
  obtain ⟨errors, m₁, hprepared, h⟩ := h
  split_ifs at h with herrors
  · cases h
    exact .inl ⟨errors, hprepared, rfl⟩
  · rw [not_not] at herrors
    subst herrors
    right
    rw [bind_eq_ok] at h
    obtain ⟨m₁', m₁'', hget, h⟩ := h
    cases hget
    rcases hfrom : executeFrom w w.sectorSize journal.ops.length 0 ⟨m₁, false, journal⟩ with
      ⟨_ | ⟨k, message⟩, s⟩
    · rw [hfrom] at h
      cases h
      have hreaches := Reaches.zero.executeFrom_none hfrom
      rw [Nat.zero_add] at hreaches
      exact .inl ⟨m₁, s, hprepared, hreaches, rfl⟩
    · rw [hfrom] at h
      obtain ⟨before, hreaches, hfailed⟩ := Reaches.zero.executeFrom hfrom
      exact .inr ⟨k, message, before, s, ⟨⟨m₁, hprepared, hreaches⟩, hfailed⟩, h⟩

end Kyth.Journal
