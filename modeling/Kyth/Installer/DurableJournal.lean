import Kyth.Lib.Check
import Kyth.Lib.Json

/-!
# The crash-recovery journal (`installer_durable_journal.rs`)

The executor records every destructive operation of an install as started and completed in a JSON
file that survives the process. The file is read back after every write, relocated onto the EFI
system partition and merged with what an earlier attempt left there.

* `load_document`: a journal that is written reads back as it was;
* `completed_recordIn` and `merge_completed`: no completion is ever lost;
* `merge_exact_iff`: when a merge loses no other record either.
-/

namespace Kyth.Durable

open Str Json Check

/-- `OpState`. -/
inductive OpState
  | started
  | completed
  deriving DecidableEq, Repr

/-- The bytes of a safe identifier. -/
def isOpNameChar (c : Char) : Bool :=
  (97 ≤ c.toNat && c.toNat ≤ 122) || isAsciiDigit c || c == '_'

/-- The text that `validated_op_name` returns. -/
def checkedOpName (op : String) : Except String String :=
  let name := trim op
  if name = "" ∨ 64 < name.utf8ByteSize then
    .error "journal operation name must be 1-64 characters"
  else if ¬ all name isOpNameChar then
    .error ("journal operation name is not a safe identifier: " ++ debug name)
  else .ok name

theorem checkedOpName_idem {op name : String} (h : checkedOpName op = .ok name) :
    checkedOpName name = .ok name := by
  simp only [checkedOpName] at h
  split_ifs at h with hlength hchars
  cases h
  simp only [checkedOpName, trim_trim, if_neg hlength, if_neg (not_not.2 hchars)]

/-- The name of an operation: a text that passes `validated_op_name` unchanged. -/
structure OpName where
  text : String
  valid : checkedOpName text = .ok text
  deriving DecidableEq

/-- `validated_op_name`. -/
def validatedOpName (op : String) : Except String OpName :=
  match h : checkedOpName op with
  | .ok name => .ok ⟨name, checkedOpName_idem h⟩
  | .error message => .error message

theorem validatedOpName_eq_ok {op : String} {name : OpName} (h : validatedOpName op = .ok name) :
    name.text = trim op := by
  unfold validatedOpName at h
  split at h
  · rename_i text htext
    cases h
    simp only [checkedOpName] at htext
    split_ifs at htext
    cases htext
    rfl
  · cases h

@[simp] theorem validatedOpName_text (name : OpName) : validatedOpName name.text = .ok name := by
  unfold validatedOpName
  split
  · rename_i text h
    have htext : text = name.text := Except.ok.inj (h.symm.trans name.valid)
    subst htext
    rfl
  · rename_i message h
    cases h.symm.trans name.valid

/-- `JournalOp`. -/
structure JournalOp where
  name : OpName
  started : UInt64
  completed : Option UInt64
  deriving DecidableEq

/-- `JournalState`. -/
structure JournalState where
  ops : List JournalOp := []
  deriving DecidableEq

/-- `JournalState::completed`. -/
def JournalState.completed (state : JournalState) (name : String) : Bool :=
  state.ops.any fun op => op.name.text == name && op.completed.isSome

/-- `JournalState::started`. -/
def JournalState.started (state : JournalState) (name : String) : Bool :=
  state.ops.any fun op => op.name.text == name

/-! ### The file -/

/-- What is at the path of a journal. -/
inductive JournalFile
  | absent
  /-- Not a regular file, too large, or not JSON, with the message that says so. -/
  | unreadable (message : String)
  | document (value : Value)

/-- One entry of the document. -/
def JournalOp.value (op : JournalOp) : Value :=
  .object [("name", .string op.name.text), ("started", .nat op.started),
    ("completed", (op.completed.map Value.nat).getD .null)]

/-- The document that `write_state` writes. -/
def JournalState.document (state : JournalState) : Value :=
  .object [("schema_version", .nat 1), ("ops", .array (state.ops.map JournalOp.value))]

/-- The loop body of `load`. -/
def loadOp (entry : Value) : Except String JournalOp :=
  match (entry.get "name").bind Value.asStr with
  | none => .error "install journal entry has no name"
  | some raw => do
      let name ← validatedOpName raw
      match (entry.get "started").bind Value.asU64 with
      | none => throw ("install journal entry " ++ debug name.text ++ " has no start timestamp")
      | some started =>
          return { name, started, completed := (entry.get "completed").bind Value.asU64 }

/-- `DurableJournal::load`. -/
def load (path : String) : JournalFile → Except String JournalState
  | .absent => .error ("could not inspect " ++ path ++ ": No such file or directory (os error 2)")
  | .unreadable message => .error message
  | .document value =>
      if (value.get "schema_version").bind Value.asU64 ≠ some 1 then
        .error "install journal has an unsupported schema"
      else do
        let ops ← (((value.get "ops").bind Value.asArray).getD []).mapM loadOp
        return ⟨ops⟩

theorem loadOp_value (op : JournalOp) : loadOp op.value = .ok op := by
  obtain ⟨name, started, completed⟩ := op
  have hname : (JournalOp.value ⟨name, started, completed⟩).get "name" =
      some (.string name.text) := rfl
  have hstarted : (JournalOp.value ⟨name, started, completed⟩).get "started" =
      some (.nat started) := rfl
  have hcompleted : ((JournalOp.value ⟨name, started, completed⟩).get "completed").bind
      Value.asU64 = completed := by
    cases completed <;> rfl
  simp only [loadOp, hname, hstarted, hcompleted, Option.bind_some, Value.asStr,
    validatedOpName_text]
  rfl

/-- A journal that is written reads back as it was. -/
@[simp] theorem load_document (path : String) (state : JournalState) :
    load path (.document state.document) = .ok state := by
  have hops : ∀ ops : List JournalOp, (ops.map JournalOp.value).mapM loadOp = .ok ops := by
    intro ops
    induction ops with
    | nil => rfl
    | cons op ops ih =>
      rw [List.map_cons, List.mapM_cons, loadOp_value, ih]
      rfl
  have harray : ((state.document.get "ops").bind Value.asArray).getD [] =
      state.ops.map JournalOp.value := rfl
  have hschema : (state.document.get "schema_version").bind Value.asU64 = some 1 := rfl
  simp only [load, hschema, harray, hops]
  rfl

/-! ### Records -/

/-- Close the last open record of an operation. -/
def closeLast (name : OpName) (now : UInt64) : List JournalOp → Option (List JournalOp)
  | [] => none
  | op :: ops =>
      match closeLast name now ops with
      | some closed => some (op :: closed)
      | none =>
          if op.name = name ∧ op.completed = none then
            some ({ op with completed := some now } :: ops)
          else none

/-- The journal after `record`. -/
def recordIn (name : OpName) (now : UInt64) (journal : JournalState) : OpState → JournalState
  | .started => ⟨journal.ops ++ [{ name, started := now, completed := none }]⟩
  | .completed =>
      ⟨(closeLast name now journal.ops).getD
        (journal.ops ++ [{ name, started := now, completed := some now }])⟩

/-- One turn of the loop of `merge_journal_states`. -/
def mergeOp (merged : List JournalOp) (op : JournalOp) : List JournalOp :=
  if merged.any fun staged => staged.name == op.name && staged.completed.isSome then merged
  else merged ++ [op]

/-- `merge_journal_states`. -/
def mergeJournalStates (staging existing : JournalState) : JournalState :=
  ⟨existing.ops.foldl mergeOp staging.ops⟩

theorem completed_iff {state : JournalState} {name : String} :
    state.completed name = true ↔ ∃ op ∈ state.ops, op.name.text = name ∧ op.completed.isSome := by
  simp [JournalState.completed]

/-- The record that is closed is in the rest of the list, or it is the first one. -/
theorem closeLast_cons_eq_some {name : OpName} {now : UInt64} {op : JournalOp} {ops closed : List JournalOp}
    (h : closeLast name now (op :: ops) = some closed) :
    (∃ rest, closeLast name now ops = some rest ∧ closed = op :: rest) ∨
      closeLast name now ops = none ∧ (op.name = name ∧ op.completed = none) ∧
        closed = { op with completed := some now } :: ops := by
  simp only [closeLast] at h
  split at h
  · rename_i rest hrest
    exact .inl ⟨rest, hrest, (Option.some.inj h).symm⟩
  · rename_i hrest
    split_ifs at h with hopen
    exact .inr ⟨hrest, hopen, (Option.some.inj h).symm⟩

/-- Closing a record keeps every completed one and completes its operation. -/
theorem closeLast_eq_some {name : OpName} {now : UInt64} {ops closed : List JournalOp}
    (h : closeLast name now ops = some closed) :
    (∀ op ∈ ops, op.completed.isSome → op ∈ closed) ∧
      ∃ op ∈ closed, op.name = name ∧ op.completed.isSome := by
  induction ops generalizing closed with
  | nil => cases h
  | cons op ops ih =>
    obtain ⟨rest, hrest, rfl⟩ | ⟨-, hopen, rfl⟩ := closeLast_cons_eq_some h
    · obtain ⟨hkept, other, hother, hdone⟩ := ih hrest
      refine ⟨fun op' hop' hcompleted => ?_, other, List.mem_cons_of_mem _ hother, hdone⟩
      rcases List.mem_cons.1 hop' with rfl | hmem
      · exact List.mem_cons_self
      · exact List.mem_cons_of_mem _ (hkept op' hmem hcompleted)
    · refine ⟨fun op' hop' hcompleted => ?_, _, List.mem_cons_self, hopen.1, rfl⟩
      rcases List.mem_cons.1 hop' with rfl | hmem
      · simp [hopen.2] at hcompleted
      · exact List.mem_cons_of_mem _ hmem

/-- No record of a completed operation is lost. -/
theorem completed_recordIn {journal : JournalState} {op : String} (name : OpName) (now : UInt64)
    (state : OpState) (h : journal.completed op = true) :
    (recordIn name now journal state).completed op = true := by
  rw [completed_iff] at h ⊢
  obtain ⟨entry, hentry, hname, hcompleted⟩ := h
  refine ⟨entry, ?_, hname, hcompleted⟩
  cases state with
  | started => exact List.mem_append_left _ hentry
  | completed =>
    simp only [recordIn]
    cases hclose : closeLast name now journal.ops with
    | none => exact List.mem_append_left _ hentry
    | some closed => exact (closeLast_eq_some hclose).1 entry hentry hcompleted

/-- A completion is on record right away. -/
theorem recordIn_completed (name : OpName) (now : UInt64) (journal : JournalState) :
    (recordIn name now journal .completed).completed name.text = true := by
  rw [completed_iff]
  simp only [recordIn]
  cases hclose : closeLast name now journal.ops with
  | none => exact ⟨_, List.mem_append_right _ (List.mem_singleton.2 rfl), rfl, rfl⟩
  | some closed =>
    obtain ⟨-, op, hop, rfl, hcompleted⟩ := closeLast_eq_some hclose
    exact ⟨op, hop, rfl, hcompleted⟩

theorem mem_of_mem_closeLast {name : OpName} {now : UInt64} {ops closed : List JournalOp}
    (h : closeLast name now ops = some closed) {op : JournalOp} (hop : op ∈ closed) :
    op ∈ ops ∨ op.name = name := by
  induction ops generalizing closed with
  | nil => cases h
  | cons first ops ih =>
    obtain ⟨rest, hrest, rfl⟩ | ⟨-, hopen, rfl⟩ := closeLast_cons_eq_some h
    · rcases List.mem_cons.1 hop with rfl | hmem
      · exact .inl List.mem_cons_self
      · exact (ih hrest hmem).imp_left (List.mem_cons_of_mem _)
    · rcases List.mem_cons.1 hop with rfl | hmem
      · exact .inr hopen.1
      · exact .inl (List.mem_cons_of_mem _ hmem)

/-- Only the operation of a record becomes completed by it. -/
theorem completed_of_recordIn {name : OpName} {now : UInt64} {journal : JournalState} {state : OpState}
    {op : String} (h : (recordIn name now journal state).completed op = true) :
    journal.completed op = true ∨ (state = .completed ∧ op = name.text) := by
  rw [completed_iff] at h
  obtain ⟨entry, hentry, rfl, hcompleted⟩ := h
  have hold : entry ∈ journal.ops → journal.completed entry.name.text = true :=
    fun hmem => completed_iff.2 ⟨entry, hmem, rfl, hcompleted⟩
  cases state with
  | started =>
    rcases List.mem_append.1 hentry with hmem | hmem
    · exact .inl (hold hmem)
    · rw [List.mem_singleton.1 hmem] at hcompleted
      cases hcompleted
  | completed =>
    simp only [recordIn] at hentry
    cases hclose : closeLast name now journal.ops with
    | none =>
      rw [hclose, Option.getD_none] at hentry
      rcases List.mem_append.1 hentry with hmem | hmem
      · exact .inl (hold hmem)
      · exact .inr ⟨rfl, by rw [List.mem_singleton.1 hmem]⟩
    | some closed =>
      rw [hclose, Option.getD_some] at hentry
      rcases mem_of_mem_closeLast hclose hentry with hmem | hname
      · exact .inl (hold hmem)
      · exact .inr ⟨rfl, by rw [hname]⟩

/-! ### What a merge keeps -/

/-- A list of records that completes an operation. -/
def completes (ops : List JournalOp) (name : OpName) : Bool :=
  ops.any fun op => op.name == name && op.completed.isSome

/-- The existing records that a merge appends. -/
def survivors : List JournalOp → List JournalOp → List JournalOp
  | _, [] => []
  | merged, op :: ops =>
      if completes merged op.name then survivors merged ops
      else op :: survivors (merged ++ [op]) ops

@[simp] theorem survivors_nil (merged : List JournalOp) : survivors merged [] = [] := rfl

theorem survivors_cons (merged : List JournalOp) (op : JournalOp) (ops : List JournalOp) :
    survivors merged (op :: ops) =
      if completes merged op.name then survivors merged ops else op :: survivors (merged ++ [op]) ops := rfl

theorem completes_iff {ops : List JournalOp} {name : OpName} :
    completes ops name = true ↔ ∃ op ∈ ops, op.name = name ∧ op.completed.isSome := by
  simp [completes]

theorem completes_append (ops ops' : List JournalOp) (name : OpName) :
    completes (ops ++ ops') name = (completes ops name || completes ops' name) := by
  simp [completes]

theorem completed_eq_completes (state : JournalState) (name : OpName) :
    state.completed name.text = completes state.ops name := by
  have hname : ∀ other : OpName, (other.text == name.text) = (other == name) := by
    intro other
    by_cases h : other = name
    · simp [h]
    · have htext : other.text ≠ name.text := by
        intro htext
        apply h
        cases other
        cases name
        simpa using htext
      simp [h, htext]
  simp only [JournalState.completed, completes, hname]

theorem foldl_mergeOp (merged existing : List JournalOp) :
    existing.foldl mergeOp merged = merged ++ survivors merged existing := by
  induction existing generalizing merged with
  | nil => simp
  | cons op existing ih =>
    rw [List.foldl_cons, ih, survivors_cons, mergeOp, completes]
    split_ifs <;> simp

theorem survivors_sublist (merged existing : List JournalOp) :
    List.Sublist (survivors merged existing) existing := by
  induction existing generalizing merged with
  | nil => exact List.Sublist.slnil
  | cons op existing ih =>
    rw [survivors_cons]
    split_ifs
    · exact (ih merged).cons op
    · exact (ih (merged ++ [op])).cons_cons op

theorem not_completes_of_mem_survivors {merged existing : List JournalOp} {op : JournalOp}
    (h : op ∈ survivors merged existing) : completes merged op.name = false := by
  induction existing generalizing merged with
  | nil => cases h
  | cons record existing ih =>
    rw [survivors_cons] at h
    split_ifs at h with hdone
    · exact ih h
    · rcases List.mem_cons.1 h with rfl | hmem
      · exact Bool.eq_false_iff.2 hdone
      · have hlater := ih hmem
        rw [completes_append, Bool.or_eq_false_iff] at hlater
        exact hlater.1

/-- No record survives that the staging journal completed. -/
theorem survivors_sublist_filter (merged existing : List JournalOp) :
    List.Sublist (survivors merged existing)
      (existing.filter fun op => !completes merged op.name) := by
  have hself : (survivors merged existing).filter (fun op => !completes merged op.name) =
      survivors merged existing := by
    rw [List.filter_eq_self]
    intro op hop
    simp [not_completes_of_mem_survivors hop]
  rw [← hself]
  exact (survivors_sublist merged existing).filter _

theorem survivors_append (merged before after : List JournalOp) :
    survivors merged (before ++ after) =
      survivors merged before ++ survivors (merged ++ survivors merged before) after := by
  induction before generalizing merged with
  | nil => simp
  | cons op before ih =>
    rw [List.cons_append, survivors_cons, survivors_cons]
    split_ifs
    · exact ih merged
    · rw [ih (merged ++ [op])]
      simp

/-- A merge that counts an operation as completed or started exactly when one of the journals does,
keeps the staging records in order and appends every existing record of an operation that the
staging journal did not complete. -/
structure MergesExactly (staging existing merged : JournalState) : Prop where
  completed : ∀ name, merged.completed name = (staging.completed name || existing.completed name)
  started : ∀ name, merged.started name = (staging.started name || existing.started name)
  staged : staging.ops <+: merged.ops
  survives : List.Sublist (existing.ops.filter fun op => !staging.completed op.name.text)
    (merged.ops.drop staging.ops.length)

/-- What a merge drops is completed in the merged journal. -/
theorem completes_of_dropped (merged : List JournalOp) {existing : List JournalOp}
    {op : JournalOp} (h : op ∈ existing) : op ∈ survivors merged existing ∨
      completes (merged ++ survivors merged existing) op.name = true := by
  induction existing generalizing merged with
  | nil => cases h
  | cons record existing ih =>
    rw [survivors_cons]
    split_ifs with hdone
    · rcases List.mem_cons.1 h with rfl | hmem
      · right
        rw [completes_append, hdone, Bool.true_or]
      · exact ih merged hmem
    · rcases List.mem_cons.1 h with rfl | hmem
      · exact .inl List.mem_cons_self
      · rcases ih (merged ++ [record]) hmem with hkept | hdone'
        · exact .inl (List.mem_cons_of_mem _ hkept)
        · right
          simpa using hdone'

/-- What either journal completed is completed in the merged one, and nothing else. -/
theorem merge_completed (staging existing : JournalState) (name : String) :
    (mergeJournalStates staging existing).completed name =
      (staging.completed name || existing.completed name) := by
  rw [Bool.eq_iff_iff, Bool.or_eq_true]
  constructor
  · intro h
    obtain ⟨op, hop, hdone⟩ := completed_iff.1 h
    rw [mergeJournalStates, foldl_mergeOp] at hop
    rcases List.mem_append.1 hop with hmem | hmem
    · exact .inl (completed_iff.2 ⟨op, hmem, hdone⟩)
    · exact .inr (completed_iff.2 ⟨op, (survivors_sublist _ _).subset hmem, hdone⟩)
  · simp only [completed_iff, mergeJournalStates, foldl_mergeOp]
    rintro (⟨op, hop, hdone⟩ | ⟨op, hop, hname, hcompleted⟩)
    · exact ⟨op, List.mem_append_left _ hop, hdone⟩
    · rcases completes_of_dropped staging.ops hop with hkept | hdone
      · exact ⟨op, List.mem_append_right _ hkept, hname, hcompleted⟩
      · obtain ⟨other, hother, hsame, hcompleted'⟩ := completes_iff.1 hdone
        exact ⟨other, hother, by rw [hsame, hname], hcompleted'⟩

theorem started_iff {state : JournalState} {name : String} :
    state.started name = true ↔ ∃ op ∈ state.ops, op.name.text = name := by
  simp [JournalState.started]

theorem merge_started (staging existing : JournalState) (name : String) :
    (mergeJournalStates staging existing).started name =
      (staging.started name || existing.started name) := by
  rw [Bool.eq_iff_iff, Bool.or_eq_true, started_iff, started_iff, started_iff, mergeJournalStates,
    foldl_mergeOp]
  constructor
  · rintro ⟨op, hop, hname⟩
    rcases List.mem_append.1 hop with hmem | hmem
    · exact .inl ⟨op, hmem, hname⟩
    · exact .inr ⟨op, (survivors_sublist _ _).subset hmem, hname⟩
  · rintro (⟨op, hop, hname⟩ | ⟨op, hop, hname⟩)
    · exact ⟨op, List.mem_append_left _ hop, hname⟩
    · rcases completes_of_dropped staging.ops hop with hkept | hdone
      · exact ⟨op, List.mem_append_right _ hkept, hname⟩
      · obtain ⟨other, hother, hsame, -⟩ := completes_iff.1 hdone
        exact ⟨other, hother, by rw [hsame, hname]⟩

/-- Nothing is dropped besides what the staging journal completed, when no existing record follows
a completed one of its operation. -/
theorem survivors_eq_filter {merged existing : List JournalOp}
    (h : ∀ before op after, existing = before ++ op :: after →
      completes before op.name = true → completes merged op.name = true) :
    survivors merged existing = existing.filter fun op => !completes merged op.name := by
  induction existing using List.reverseRecOn with
  | nil => rfl
  | append_singleton existing op ih =>
    have hprev : survivors merged existing =
        existing.filter fun op => !completes merged op.name := by
      apply ih
      intro before op' after hsplit
      exact h before op' (after ++ [op]) (by simp [hsplit])
    rw [survivors_append, List.filter_append, hprev]
    congr 1
    -- the last record is dropped exactly when the staging journal completed it
    have hdone : completes (merged ++ existing.filter fun op => !completes merged op.name) op.name =
        completes merged op.name := by
      rw [completes_append, Bool.eq_iff_iff, Bool.or_eq_true]
      constructor
      · rintro (hmerged | hexisting)
        · exact hmerged
        · obtain ⟨record, hrecord, hrest⟩ := completes_iff.1 hexisting
          exact h existing op [] rfl
            (completes_iff.2 ⟨record, (List.mem_filter.1 hrecord).1, hrest⟩)
      · exact .inl
    simp only [survivors_cons, survivors_nil, hdone, List.filter_cons, List.filter_nil]
    cases completes merged op.name <;> simp

/-- A merge is exact if and only if every existing record that follows a completed one of its
operation belongs to an operation that the staging journal completed. -/
theorem merge_exact_iff (staging existing : JournalState) :
    MergesExactly staging existing (mergeJournalStates staging existing) ↔
      ∀ before op after, existing.ops = before ++ op :: after →
        completes before op.name = true → staging.completed op.name.text = true := by
  have hops : (mergeJournalStates staging existing).ops =
      staging.ops ++ survivors staging.ops existing.ops := foldl_mergeOp _ _
  simp only [completed_eq_completes]
  constructor
  · intro hexact before op after hsplit hbefore
    by_contra hstaging
    -- the record is dropped, so fewer records survive than should
    have hlong := hexact.survives.length_le
    rw [hops, List.drop_left] at hlong
    simp only [completed_eq_completes] at hlong
    have hdropped : completes (staging.ops ++ survivors staging.ops before) op.name = true := by
      obtain ⟨record, hrecord, hname, hcompleted⟩ := completes_iff.1 hbefore
      rcases completes_of_dropped staging.ops hrecord with hkept | hdone
      · exact completes_iff.2 ⟨record, List.mem_append_right _ hkept, hname, hcompleted⟩
      · rwa [hname] at hdone
    have hfirst := (survivors_sublist_filter staging.ops before).length_le
    rw [hsplit, survivors_append, List.filter_append, List.filter_cons, survivors_cons,
      if_pos hdropped, if_pos (by simpa using hstaging)] at hlong
    have hrest : (survivors (staging.ops ++ survivors staging.ops before) after).length ≤
        (after.filter fun op => !completes staging.ops op.name).length := by
      refine le_trans (survivors_sublist_filter _ after).length_le ?_
      refine (List.monotone_filter_right after fun record hrecord => ?_).length_le
      rw [completes_append, Bool.not_or, Bool.and_eq_true] at hrecord
      exact hrecord.1
    simp only [List.length_append, List.length_cons] at hlong
    omega
  · intro h
    refine ⟨merge_completed staging existing, merge_started staging existing, ?_, ?_⟩
    · rw [hops]
      exact List.prefix_append _ _
    · rw [hops, List.drop_left, survivors_eq_filter h]
      simp only [completed_eq_completes]
      exact List.Sublist.refl _

/-- The name of the operation that makes the target filesystem. -/
def formatName : OpName := ⟨"format", by decide +kernel⟩

/-- The journal of an install that formatted its target and was started again. -/
def reopenedJournal : JournalState := ⟨[⟨formatName, 1, some 2⟩, ⟨formatName, 3, none⟩]⟩

/-- The open record of the second attempt is dropped although the staging journal is empty. -/
theorem reopened_record_dropped :
    ¬ MergesExactly {} reopenedJournal (mergeJournalStates {} reopenedJournal) := by
  intro hexact
  have hlong := hexact.survives.length_le
  have hmerged : (mergeJournalStates {} reopenedJournal).ops.length = 1 := by decide
  have hkept : (reopenedJournal.ops.filter fun op =>
      !({} : JournalState).completed op.name.text).length = 2 := by decide
  rw [hkept, List.length_drop, hmerged] at hlong
  omega

end Kyth.Durable
