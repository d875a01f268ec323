import Kyth.Installer.Staging

/-!
# The identities of staged operations (`add_op`, `remove_op`)

A client removes a staged operation by the identity that `add_op` gave it, so an identity must not be given
twice. `add_op` takes the one behind the largest identity that is still in the journal: what has been
removed from the end, or cleared, is forgotten, and its identity is given again.

`identities_iff` says for which sequences of edits this does not show.
-/

namespace Kyth.Daemon

open Str Word Json Storage Journal

/-! ### Edits -/

/-- A call on a journal. -/
inductive JournalEdit
  | add (kind : OpKind) (params : Value)
  | remove (index : ℕ)
  | clear

/-- `clear`. -/
def clearOps (journal : PartitionJournal) : PartitionJournal := { journal with ops := [] }

/-- A journal, and all operations that were ever added to it. -/
structure Edited where
  journal : PartitionJournal
  added : List PartitionOperation := []

/-- A journal without operations, as `PartitionJournal::new` makes one. -/
def Edited.start (journal : PartitionJournal) : Edited where
  journal := clearOps journal

/-- The operation that `add_op` appends; its identity is what the call returns. -/
def Edited.next (s : Edited) (kind : OpKind) (params : Value) : PartitionOperation :=
  ⟨kind, params, nextIndex s.journal.ops⟩

def Edited.step (s : Edited) : JournalEdit → Edited
  | .add kind params =>
      { journal := addOp s.journal kind params, added := s.added ++ [s.next kind params] }
  | .remove index => { s with journal := (removeOp s.journal index).getD s.journal }
  | .clear => { s with journal := clearOps s.journal }

def Edited.run (s : Edited) (edits : List JournalEdit) : Edited := edits.foldl Edited.step s

/-- The identities in the journal increase, no identity was returned twice, and a request for an identity
means the operation that it was returned for. -/
structure Sound (s : Edited) : Prop where
  increasing : (s.journal.ops.map PartitionOperation.index).Pairwise (· < ·)
  fresh : (s.added.map PartitionOperation.index).Nodup
  meant : ∀ op ∈ s.journal.ops, ∀ seen ∈ s.added, seen.index = op.index → seen = op

/-- The operation that was added last is still there, and its identity is not the largest number. -/
def LastKept (s : Edited) : Prop :=
  ∀ r ∈ (s.added.map PartitionOperation.index).getLast?,
    r + 1 < 2 ^ 64 ∧ ∃ op ∈ s.journal.ops, op.index = r

/-- Operations are only added while the last one is kept. -/
def OrderlyEdits : Edited → List JournalEdit → Prop
  | _, [] => True
  | s, .add kind params :: edits => LastKept s ∧ OrderlyEdits (s.step (.add kind params)) edits
  | s, edit :: edits => OrderlyEdits (s.step edit) edits

/-! ### The invariant -/

/-- The operations were numbered one after the other, and the journal holds some of them in order. -/
structure Numbered (s : Edited) : Prop where
  range : s.added.map PartitionOperation.index = List.range s.added.length
  sublist : s.journal.ops.Sublist s.added
  bounded : s.added.length ≤ 2 ^ 64

theorem Numbered.start (journal : PartitionJournal) : Numbered (.start journal) :=
  ⟨rfl, List.Sublist.refl _, Nat.zero_le _⟩

theorem Numbered.sound {s : Edited} (h : Numbered s) : Sound s := by
  have hincreasing : (s.added.map PartitionOperation.index).Pairwise (· < ·) := by
    rw [h.range]
    exact List.pairwise_lt_range
  refine ⟨hincreasing.sublist (h.sublist.map _), hincreasing.imp Nat.ne_of_lt, fun op hop seen hseen hindex => ?_⟩
  exact List.inj_on_of_nodup_map (hincreasing.imp Nat.ne_of_lt) hseen (h.sublist.subset hop) hindex

theorem Numbered.index_lt {s : Edited} (h : Numbered s) {op : PartitionOperation}
    (hop : op ∈ s.journal.ops) : op.index < s.added.length := by
  have hmem := List.mem_map_of_mem (f := PartitionOperation.index) (h.sublist.subset hop)
  rw [h.range] at hmem
  exact List.mem_range.1 hmem

/-- The next identity is at most the number of operations that were added. -/
theorem Numbered.nextIndex_le {s : Edited} (h : Numbered s) :
    nextIndex s.journal.ops ≤ s.added.length ∧ nextIndex s.journal.ops < 2 ^ 64 := by
  unfold nextIndex
  cases hmax : (s.journal.ops.map PartitionOperation.index).max? with
  | none => exact ⟨Nat.zero_le _, by decide⟩
  | some last =>
    obtain ⟨op, hop, hlast⟩ := List.mem_map.1 (List.max?_mem hmax)
    have hlt := h.index_lt hop
    simp only [satAddU64]
    omega

/-- It is that number exactly when the last operation is kept. -/
theorem Numbered.lastKept_iff {s : Edited} (h : Numbered s) :
    LastKept s ↔ s.added.length ≤ nextIndex s.journal.ops := by
  unfold LastKept nextIndex
  rw [h.range]
  cases hmax : (s.journal.ops.map PartitionOperation.index).max? with
  | none =>
    have hnil : s.journal.ops = [] := by simpa using hmax
    rw [hnil]
    cases hlength : s.added.length with
    | zero => simp
    | succ k => simp [List.range_succ]
  | some last =>
    obtain ⟨op, hop, hlast⟩ := List.mem_map.1 (List.max?_mem hmax)
    have hlt := h.index_lt hop
    have hbound := h.bounded
    obtain ⟨k, hk⟩ : ∃ k, s.added.length = k + 1 := ⟨s.added.length - 1, by omega⟩
    rw [hk, List.range_succ, List.getLast?_concat]
    simp only [Option.mem_def, Option.some.injEq, forall_eq', satAddU64]
    constructor
    · rintro ⟨hsmall, other, hother, hindex⟩
      have hle : other.index ≤ last := (List.max?_eq_some_iff.1 hmax).2 _ (List.mem_map_of_mem hother)
      omega
    · intro hle
      exact ⟨by omega, op, hop, by omega⟩

theorem Numbered.add {s : Edited} (h : Numbered s) (hkept : LastKept s) (kind : OpKind) (params : Value) :
    Numbered (s.step (.add kind params)) := by
  have hle := h.lastKept_iff.1 hkept
  have hnext := h.nextIndex_le
  have heq : nextIndex s.journal.ops = s.added.length := by omega
  refine ⟨?_, h.sublist.append (List.Sublist.refl _), ?_⟩
  · simp only [Edited.step, List.map_append, h.range, List.map_cons, List.map_nil, List.length_append,
      List.length_cons, List.length_nil, List.range_succ, Edited.next, heq, zero_add]
  · simp only [Edited.step, List.length_append, List.length_cons, List.length_nil]
    omega

theorem Numbered.shrink {s : Edited} (h : Numbered s) {journal : PartitionJournal}
    (hsub : journal.ops.Sublist s.journal.ops) : Numbered { s with journal } :=
  ⟨h.range, hsub.trans h.sublist, h.bounded⟩

theorem removeOp_sublist (journal : PartitionJournal) (index : ℕ) :
    ((removeOp journal index).getD journal).ops.Sublist journal.ops := by
  unfold removeOp
  split
  · exact List.eraseP_sublist
  · exact List.Sublist.refl _

/-- An identity that is new shows that the last operation was kept. -/
theorem Numbered.lastKept_of_sound {s : Edited} (h : Numbered s) {kind : OpKind} {params : Value}
    (hsound : Sound (s.step (.add kind params))) : LastKept s := by
  rw [h.lastKept_iff]
  by_contra hlt
  have hfresh := hsound.fresh
  simp only [Edited.step, List.map_append, h.range, List.map_cons, List.map_nil, Edited.next] at hfresh
  have hdisjoint := List.disjoint_of_nodup_append hfresh
  exact hdisjoint (List.mem_range.2 (not_le.1 hlt)) (List.mem_singleton.2 rfl)

/-! ### Runs -/

theorem sound_run_iff {s : Edited} (h : Numbered s) (edits : List JournalEdit) :
    (∀ before, before <+: edits → Sound (s.run before)) ↔ OrderlyEdits s edits := by
  induction edits generalizing s with
  | nil => simpa [OrderlyEdits, Edited.run] using h.sound
  | cons edit edits ih =>
    have hprefixes : (∀ before, before <+: edit :: edits → Sound (s.run before)) ↔
        ∀ before, before <+: edits → Sound ((s.step edit).run before) := by
      constructor
      · intro hall before hbefore
        exact hall (edit :: before) (List.cons_prefix_cons.2 ⟨rfl, hbefore⟩)
      · intro hall before hbefore
        cases before with
        | nil => exact h.sound
        | cons first before =>
          obtain ⟨rfl, hrest⟩ := List.cons_prefix_cons.1 hbefore
          exact hall before hrest
    rw [hprefixes]
    cases edit with
    | add kind params =>
      constructor
      · intro hall
        have hkept := h.lastKept_of_sound (hall [] (List.nil_prefix))
        exact ⟨hkept, (ih (h.add hkept kind params)).1 hall⟩
      · rintro ⟨hkept, hrest⟩
        exact (ih (h.add hkept kind params)).2 hrest
    | remove index => exact ih (h.shrink (removeOp_sublist s.journal index))
    | clear => exact ih (h.shrink (List.nil_sublist _))

/-- In every state of a run the identities increase and are fresh, exactly when operations are only added
while the last one that was added is still in the journal. -/
theorem identities_iff (journal : PartitionJournal) (edits : List JournalEdit) :
    (∀ before, before <+: edits → Sound ((Edited.start journal).run before)) ↔
      OrderlyEdits (.start journal) edits :=
  sound_run_iff (.start journal) edits

/-! ### An identity that is given twice -/

def emptyJournal : PartitionJournal where
  disk := "/dev/sda"

/-- The second operation is removed, and another one gets its identity. -/
def removedLast : List JournalEdit :=
  [.add .create .null, .add .format .null, .remove 1, .add .delete .null]

theorem identity_given_twice :
    (((Edited.start emptyJournal).run removedLast).added.map PartitionOperation.index = [0, 1, 1]) ∧
      ¬ Sound ((Edited.start emptyJournal).run removedLast) := by
  have hindices : ((Edited.start emptyJournal).run removedLast).added.map PartitionOperation.index =
      [0, 1, 1] := by decide
  refine ⟨hindices, fun hsound => ?_⟩
  have hfresh := hsound.fresh
  rw [hindices] at hfresh
  exact absurd hfresh (by decide)

end Kyth.Daemon
