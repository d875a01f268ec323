import Kyth.Lib.LockedFile

/-!
# The steps of a replacement (`atomic_io.rs`)

`atomic_write_bytes` as a program of system calls: a new temporary file is written, synced and renamed to the
target, and the directory is synced. `wp_atomicWriteBytes` is its rule under a lock.
-/

namespace Kyth.AtomicIo

open LockedFile

/-- The steps between which the temporary file is removed when one of them fails. -/
def replaceFile (data : List UInt8) : Run UInt8 String Unit := do
  Run.create
  Run.write data
  Run.sync
  Run.attempt -- `refuse_symlink`
  Run.rename
  Run.syncDir

/-- `atomic_write_bytes` with a mode: the parent directory is made, and the target must not be a link. -/
def atomicWriteBytes (data : List UInt8) : Run UInt8 String Unit := do
  Run.attempt -- `create_dir_all`
  Run.attempt -- `refuse_symlink`
  tryCatch (replaceFile data) fun e => do
    ExceptT.mk (.remove fun _ => .done (.ok ()))
    throw e

variable {α : Type} {ReadsFail : Prop} {serve : Option (List UInt8) → Except String α × Option (List UInt8)}
  {Q : Option (View UInt8 α) → Except String Unit → Prop} {v : View UInt8 α} {data : List UInt8} {a : α}

theorem wp_replaceFile (hanswer : v.answer = none) (hserve : serve v.store = (.ok a, some data))
    (hok : Q (some ⟨some data, none, some a, true⟩) (.ok ()))
    (hfail : ∀ e temp, Q (some { v with temp }) (.error e))
    (hlate : ∀ e, Q (some ⟨some data, none, some a, v.synced⟩) (.error e)) :
    Wp ReadsFail serve Q (replaceFile data).run (some v) := by
  unfold replaceFile
  rw [wp_run_bind]
  refine ⟨v, rfl, fun e => hfail e v.temp, ?_⟩
  show Wp ReadsFail serve Q (ExceptT.run _) _
  rw [wp_run_bind]
  refine ⟨_, _, rfl, rfl, fun e temp => hfail e temp, fun synced => ?_⟩
  show Wp ReadsFail serve Q (ExceptT.run _) _
  rw [wp_run_bind]
  refine ⟨_, _, rfl, rfl, fun e => hfail e _, ?_⟩
  show Wp ReadsFail serve Q (ExceptT.run _) _
  rw [wp_run_bind]
  intro answer
  cases answer with
  | error e => exact hfail e _
  | ok _ =>
    show Wp ReadsFail serve Q (ExceptT.run _) _
    rw [wp_run_bind]
    exact ⟨_, a, data, rfl, hanswer, rfl, hserve, fun e => hfail e _, hlate, hok⟩

/-- The replacement makes of a file what is to be served, or leaves it as it is; it may also fail behind the
rename. -/
theorem wp_atomicWriteBytes (hanswer : v.answer = none) (hserve : serve v.store = (.ok a, some data))
    (hok : Q (some ⟨some data, none, some a, true⟩) (.ok ()))
    (hfail : ∀ e temp, Q (some { v with temp }) (.error e))
    (hlate : ∀ e, Q (some ⟨some data, none, some a, v.synced⟩) (.error e)) :
    Wp ReadsFail serve Q (atomicWriteBytes data).run (some v) := by
  unfold atomicWriteBytes
  rw [wp_run_bind]
  intro answer
  cases answer with
  | error e => exact hfail e v.temp
  | ok _ =>
    show Wp ReadsFail serve Q (ExceptT.run _) _
    rw [wp_run_bind]
    intro answer
    cases answer with
    | error e => exact hfail e v.temp
    | ok _ =>
      show Wp ReadsFail serve Q (ExceptT.run _) _
      rw [wp_tryCatch]
      refine wp_replaceFile hanswer hserve hok (fun e temp => ?_) fun e => ?_
      · exact ⟨_, rfl, fun _ => hfail e temp, hfail e none⟩
      · exact ⟨_, rfl, fun _ => hlate e, hlate e⟩

end Kyth.AtomicIo
