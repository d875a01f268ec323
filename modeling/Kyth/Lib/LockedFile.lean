import Mathlib.Tactic
import Mathlib.Logic.Relation

/-!
# A file that is changed under a lock

Any number of calls read a file and replace it, each by a program of system calls: it takes an exclusive lock,
reads the file, writes a temporary file, and renames that to the file. The steps of the calls interleave, every
system call may fail, a call may be killed, and the power may fail; what has not been synced is not safe then.

* `Proc` is what a call still has to do, `Step` is one step of the calls;
* `Wp` is the weakest precondition of a program that keeps to the lock, with one rule for each system call;
* `Served` is what such a program may return.
-/

namespace Kyth.LockedFile

/-! ### Programs -/

/-- What a call still has to do: its next system call, and how it goes on with the answer. The temporary file
goes by its name; calls that write it at the same time are not told apart. -/
inductive Proc (B E ρ : Type)
  | done (result : ρ)
  /-- A system call on something else. -/
  | attempt (next : Except E Unit → Proc B E ρ)
  | flock (next : Except E Unit → Proc B E ρ)
  /-- Read the file, which may be missing. -/
  | read (next : Except E (Option (List B)) → Proc B E ρ)
  /-- Make the temporary file, or truncate it. -/
  | create (next : Except E Unit → Proc B E ρ)
  | write (text : List B) (next : Except E Unit → Proc B E ρ)
  | sync (next : Except E Unit → Proc B E ρ)
  /-- Rename the temporary file to the file. -/
  | rename (next : Except E Unit → Proc B E ρ)
  | syncDir (next : Except E Unit → Proc B E ρ)
  /-- Remove the temporary file. -/
  | remove (next : Except E Unit → Proc B E ρ)

variable {B E ρ σ α Op : Type}

/-- One program after another. -/
def Proc.bind : Proc B E ρ → (ρ → Proc B E σ) → Proc B E σ
  | .done result, f => f result
  | .attempt next, f => .attempt fun answer => (next answer).bind f
  | .flock next, f => .flock fun answer => (next answer).bind f
  | .read next, f => .read fun answer => (next answer).bind f
  | .create next, f => .create fun answer => (next answer).bind f
  | .write text next, f => .write text fun answer => (next answer).bind f
  | .sync next, f => .sync fun answer => (next answer).bind f
  | .rename next, f => .rename fun answer => (next answer).bind f
  | .syncDir next, f => .syncDir fun answer => (next answer).bind f
  | .remove next, f => .remove fun answer => (next answer).bind f

instance : Monad (Proc B E) where
  pure := .done
  bind := Proc.bind

/-- A program that stops at an error. -/
abbrev Run (B E α : Type) := ExceptT E (Proc B E) α

namespace Run

def attempt : Run B E Unit := ExceptT.mk (.attempt .done)

def flock : Run B E Unit := ExceptT.mk (.flock .done)

def create : Run B E Unit := ExceptT.mk (.create .done)

def write (text : List B) : Run B E Unit := ExceptT.mk (.write text .done)

def sync : Run B E Unit := ExceptT.mk (.sync .done)

def rename : Run B E Unit := ExceptT.mk (.rename .done)

def syncDir : Run B E Unit := ExceptT.mk (.syncDir .done)

end Run

/-! ### The files and the calls -/

/-- A file that is being written. -/
structure File (B : Type) where
  text : List B
  synced : Bool

/-- How far a call has come. -/
inductive State (B E α : Type)
  | running (p : Proc B E (Except E α))
  | returned (result : Except E α)
  | killed

/-- A call. It is applied when it has renamed a file, or returns well without having to; it is synced when it has
then synced the directory. -/
structure Call (Op B E α : Type) where
  op : Op
  state : State B E α
  applied : Bool := false
  synced : Bool := false

/-- The end of a call that is cut off. -/
def Call.cut (c : Call Op B E α) : Call Op B E α :=
  match c.state with
  | .running _ => { c with state := .killed }
  | .returned _ | .killed => c

/-- A version of the file that a power loss may leave: whether its content is on the disk, and how many calls of
the log it comes from. -/
structure Version (B : Type) where
  text : Option (List B)
  synced : Bool
  length : ℕ

/-- The files, the lock and the calls. The log lists the calls that have been applied, in this order; `older` are
the versions that the directory on the disk may still have. -/
structure System (Op B E α : Type) where
  store : Option (List B)
  settled : Bool := true
  temp : Option (File B) := none
  holder : Option ℕ := none
  calls : List (Call Op B E α) := []
  older : List (Version B) := []
  log : List (ℕ × Op) := []
  lost : List (ℕ × Op) := []
  outages : ℕ := 0

namespace System

/-- A call is running, with this program left. -/
structure Runs (s : System Op B E α) (i : ℕ) (c : Call Op B E α) (p : Proc B E (Except E α)) : Prop where
  call : s.calls[i]? = some c
  state : c.state = .running p

/-- A call goes on with a program. -/
def goOn (s : System Op B E α) (i : ℕ) (c : Call Op B E α) (p : Proc B E (Except E α)) : System Op B E α :=
  { s with calls := s.calls.set i { c with state := .running p } }

/-- The lock without the call. -/
def release (s : System Op B E α) (i : ℕ) : Option ℕ := if s.holder = some i then none else s.holder

/-- A call returns and leaves the lock. -/
def finish (s : System Op B E α) (i : ℕ) (c : Call Op B E α) (result : Except E α) : System Op B E α :=
  { s with
    calls := s.calls.set i { c with state := .returned result, applied := c.applied || result.isOk }
    holder := s.release i
    log := if !c.applied && result.isOk then s.log ++ [(i, c.op)] else s.log }

/-- The temporary file becomes the file. -/
def replace (s : System Op B E α) (i : ℕ) (c : Call Op B E α) (file : File B) (p : Proc B E (Except E α)) :
    System Op B E α :=
  { s.goOn i { c with applied := true } p with
    store := some file.text
    settled := file.synced
    temp := none
    older := s.older ++ [⟨s.store, s.settled, s.log.length⟩]
    log := s.log ++ [(i, c.op)] }

/-- The power fails: the file is one of its versions, and no call goes on. -/
def cutOff (s : System Op B E α) (v : Version B) (text : Option (List B)) (temp : Option (File B)) :
    System Op B E α :=
  { store := text
    temp
    calls := s.calls.map Call.cut
    log := s.log.take v.length
    lost := s.lost ++ s.log.drop v.length
    outages := s.outages + 1 }

end System

/-- One step of the calls. `ReadsFail` says whether reading the file may fail when it is there. -/
inductive Step (program : Op → Proc B E (Except E α)) (ReadsFail : Prop) :
    System Op B E α → System Op B E α → Prop
  | begins (s : System Op B E α) (op : Op) :
      Step program ReadsFail s { s with calls := s.calls ++ [{ op, state := .running (program op) }] }
  | attempts {s : System Op B E α} {i : ℕ} {c : Call Op B E α} {next : Except E Unit → Proc B E (Except E α)}
      (h : s.Runs i c (.attempt next)) (answer : Except E Unit) :
      Step program ReadsFail s (s.goOn i c (next answer))
  | lockFails {s : System Op B E α} {i : ℕ} {c : Call Op B E α} {next : Except E Unit → Proc B E (Except E α)}
      (h : s.Runs i c (.flock next)) (e : E) : Step program ReadsFail s (s.goOn i c (next (.error e)))
  | locks {s : System Op B E α} {i : ℕ} {c : Call Op B E α} {next : Except E Unit → Proc B E (Except E α)}
      (h : s.Runs i c (.flock next)) (hfree : s.holder = none) :
      Step program ReadsFail s { s.goOn i c (next (.ok ())) with holder := some i }
  | readFails {s : System Op B E α} {i : ℕ} {c : Call Op B E α}
      {next : Except E (Option (List B)) → Proc B E (Except E α)} (h : s.Runs i c (.read next))
      (hfails : ReadsFail) (e : E) : Step program ReadsFail s (s.goOn i c (next (.error e)))
  | reads {s : System Op B E α} {i : ℕ} {c : Call Op B E α}
      {next : Except E (Option (List B)) → Proc B E (Except E α)} (h : s.Runs i c (.read next)) :
      Step program ReadsFail s (s.goOn i c (next (.ok s.store)))
  | createFails {s : System Op B E α} {i : ℕ} {c : Call Op B E α}
      {next : Except E Unit → Proc B E (Except E α)} (h : s.Runs i c (.create next)) (e : E) :
      Step program ReadsFail s (s.goOn i c (next (.error e)))
  | creates {s : System Op B E α} {i : ℕ} {c : Call Op B E α} {next : Except E Unit → Proc B E (Except E α)}
      (h : s.Runs i c (.create next)) :
      Step program ReadsFail s { s.goOn i c (next (.ok ())) with temp := some ⟨[], false⟩ }
  | writeFails {s : System Op B E α} {i : ℕ} {c : Call Op B E α} {text : List B}
      {next : Except E Unit → Proc B E (Except E α)} (h : s.Runs i c (.write text next)) (e : E) :
      Step program ReadsFail s (s.goOn i c (next (.error e)))
  | writes {s : System Op B E α} {i : ℕ} {c : Call Op B E α} {text : List B}
      {next : Except E Unit → Proc B E (Except E α)} {file : File B} (h : s.Runs i c (.write text next))
      (front rest : List B) (htext : text = front ++ rest) (hfile : s.temp = some file) :
      Step program ReadsFail s
        { s.goOn i c (.write rest next) with temp := some ⟨file.text ++ front, false⟩ }
  | writesAll {s : System Op B E α} {i : ℕ} {c : Call Op B E α} {next : Except E Unit → Proc B E (Except E α)}
      (h : s.Runs i c (.write [] next)) : Step program ReadsFail s (s.goOn i c (next (.ok ())))
  | syncFails {s : System Op B E α} {i : ℕ} {c : Call Op B E α} {next : Except E Unit → Proc B E (Except E α)}
      (h : s.Runs i c (.sync next)) (e : E) : Step program ReadsFail s (s.goOn i c (next (.error e)))
  | syncs {s : System Op B E α} {i : ℕ} {c : Call Op B E α} {next : Except E Unit → Proc B E (Except E α)}
      {file : File B} (h : s.Runs i c (.sync next)) (hfile : s.temp = some file) :
      Step program ReadsFail s { s.goOn i c (next (.ok ())) with temp := some ⟨file.text, true⟩ }
  | renameFails {s : System Op B E α} {i : ℕ} {c : Call Op B E α}
      {next : Except E Unit → Proc B E (Except E α)} (h : s.Runs i c (.rename next)) (e : E) :
      Step program ReadsFail s (s.goOn i c (next (.error e)))
  | renames {s : System Op B E α} {i : ℕ} {c : Call Op B E α} {next : Except E Unit → Proc B E (Except E α)}
      {file : File B} (h : s.Runs i c (.rename next)) (hfile : s.temp = some file) :
      Step program ReadsFail s (s.replace i c file (next (.ok ())))
  | syncDirFails {s : System Op B E α} {i : ℕ} {c : Call Op B E α}
      {next : Except E Unit → Proc B E (Except E α)} (h : s.Runs i c (.syncDir next)) (e : E) :
      Step program ReadsFail s (s.goOn i c (next (.error e)))
  | syncsDir {s : System Op B E α} {i : ℕ} {c : Call Op B E α} {next : Except E Unit → Proc B E (Except E α)}
      (h : s.Runs i c (.syncDir next)) :
      Step program ReadsFail s
        { s.goOn i { c with synced := c.applied } (next (.ok ())) with older := [] }
  | removes {s : System Op B E α} {i : ℕ} {c : Call Op B E α} {next : Except E Unit → Proc B E (Except E α)}
      (h : s.Runs i c (.remove next)) : Step program ReadsFail s { s.goOn i c (next (.ok ())) with temp := none }
  | removeFails {s : System Op B E α} {i : ℕ} {c : Call Op B E α}
      {next : Except E Unit → Proc B E (Except E α)} (h : s.Runs i c (.remove next)) (e : E) :
      Step program ReadsFail s (s.goOn i c (next (.error e)))
  | returns {s : System Op B E α} {i : ℕ} {c : Call Op B E α} {result : Except E α}
      (h : s.Runs i c (.done result)) : Step program ReadsFail s (s.finish i c result)
  | kills {s : System Op B E α} {i : ℕ} {c : Call Op B E α} {p : Proc B E (Except E α)} (h : s.Runs i c p) :
      Step program ReadsFail s
        { s with calls := s.calls.set i { c with state := .killed }, holder := s.release i }
  | powerLoss (s : System Op B E α) {v : Version B}
      (hv : v ∈ ⟨s.store, s.settled, s.log.length⟩ :: s.older) {text : Option (List B)}
      (htext : v.synced = true → text = v.text) (temp : Option (File B)) :
      Step program ReadsFail s (s.cutOff v text temp)

/-- The states that a run from a file without calls reaches. -/
def Reachable (program : Op → Proc B E (Except E α)) (ReadsFail : Prop) (start : Option (List B))
    (s : System Op B E α) : Prop :=
  Relation.ReflTransGen (Step program ReadsFail) { store := start } s

/-! ### Programs that keep to the lock -/

/-- What a call that holds the lock can rely on: the files, its answer once it is applied, and whether it has
synced the directory since. -/
structure View (B α : Type) where
  store : Option (List B)
  temp : Option (File B)
  answer : Option α := none
  synced : Bool := false

/-- The weakest precondition of a program that keeps to the lock: it takes the lock once, writes and renames only
while it holds it, renames one synced file, and that is the one that `serve` makes of the file. -/
def Wp (ReadsFail : Prop) (serve : Option (List B) → Except E α × Option (List B))
    (Q : Option (View B α) → ρ → Prop) : Proc B E ρ → Option (View B α) → Prop
  | .done result, w => Q w result
  | .attempt next, w => ∀ answer, Wp ReadsFail serve Q (next answer) w
  | .flock next, w => w = none ∧ (∀ e, Wp ReadsFail serve Q (next (.error e)) none) ∧
      ∀ store temp, Wp ReadsFail serve Q (next (.ok ())) (some { store, temp })
  | .read next, w => (ReadsFail → ∀ e, Wp ReadsFail serve Q (next (.error e)) w) ∧
      match w with
      | none => ∀ store, Wp ReadsFail serve Q (next (.ok store)) none
      | some v => Wp ReadsFail serve Q (next (.ok v.store)) (some v)
  | .create next, w => ∃ v, w = some v ∧ (∀ e, Wp ReadsFail serve Q (next (.error e)) (some v)) ∧
      Wp ReadsFail serve Q (next (.ok ())) (some { v with temp := some ⟨[], false⟩ })
  | .write text next, w => ∃ v file, w = some v ∧ v.temp = some file ∧
      (∀ e temp, Wp ReadsFail serve Q (next (.error e)) (some { v with temp })) ∧
      ∀ synced, Wp ReadsFail serve Q (next (.ok ())) (some { v with temp := some ⟨file.text ++ text, synced⟩ })
  | .sync next, w => ∃ v file, w = some v ∧ v.temp = some file ∧
      (∀ e, Wp ReadsFail serve Q (next (.error e)) (some v)) ∧
      Wp ReadsFail serve Q (next (.ok ())) (some { v with temp := some ⟨file.text, true⟩ })
  | .rename next, w => ∃ v a text, w = some v ∧ v.answer = none ∧ v.temp = some ⟨text, true⟩ ∧
      serve v.store = (.ok a, some text) ∧ (∀ e, Wp ReadsFail serve Q (next (.error e)) (some v)) ∧
      Wp ReadsFail serve Q (next (.ok ())) (some ⟨some text, none, some a, v.synced⟩)
  | .syncDir next, w => (∀ e, Wp ReadsFail serve Q (next (.error e)) w) ∧
      Wp ReadsFail serve Q (next (.ok ())) (w.map fun v => { v with synced := v.answer.isSome })
  | .remove next, w => ∃ v, w = some v ∧ (∀ e, Wp ReadsFail serve Q (next (.error e)) (some v)) ∧
      Wp ReadsFail serve Q (next (.ok ())) (some { v with temp := none })

section Rules

variable {ReadsFail : Prop} {serve : Option (List B) → Except E α × Option (List B)}
  {Q Q' : Option (View B α) → ρ → Prop} {w : Option (View B α)}

theorem Wp.mono {p : Proc B E ρ} (hQ : ∀ w r, Q w r → Q' w r) (h : Wp ReadsFail serve Q p w) :
    Wp ReadsFail serve Q' p w := by
  induction p generalizing w with
  | done result => exact hQ w result h
  | attempt next ih => exact fun answer => ih answer (h answer)
  | flock next ih => exact ⟨h.1, fun e => ih _ (h.2.1 e), fun store temp => ih _ (h.2.2 store temp)⟩
  | read next ih =>
    cases w with
    | none => exact ⟨fun hfails e => ih _ (h.1 hfails e), fun store => ih _ (h.2 store)⟩
    | some v => exact ⟨fun hfails e => ih _ (h.1 hfails e), ih _ h.2⟩
  | create next ih =>
    obtain ⟨v, hw, herror, hok⟩ := h
    exact ⟨v, hw, fun e => ih _ (herror e), ih _ hok⟩
  | write text next ih =>
    obtain ⟨v, file, hw, hfile, herror, hok⟩ := h
    exact ⟨v, file, hw, hfile, fun e temp => ih _ (herror e temp), fun synced => ih _ (hok synced)⟩
  | sync next ih =>
    obtain ⟨v, file, hw, hfile, herror, hok⟩ := h
    exact ⟨v, file, hw, hfile, fun e => ih _ (herror e), ih _ hok⟩
  | rename next ih =>
    obtain ⟨v, a, text, hw, hanswer, htemp, hserve, herror, hok⟩ := h
    exact ⟨v, a, text, hw, hanswer, htemp, hserve, fun e => ih _ (herror e), ih _ hok⟩
  | syncDir next ih => exact ⟨fun e => ih _ (h.1 e), ih _ h.2⟩
  | remove next ih =>
    obtain ⟨v, hw, herror, hok⟩ := h
    exact ⟨v, hw, fun e => ih _ (herror e), ih _ hok⟩

/-- The rule for one program after another. -/
theorem wp_bind {p : Proc B E ρ} {f : ρ → Proc B E σ} {Q : Option (View B α) → σ → Prop} :
    Wp ReadsFail serve Q (p.bind f) w ↔
      Wp ReadsFail serve (fun w r => Wp ReadsFail serve Q (f r) w) p w := by
  induction p generalizing w with
  | done result => rfl
  | attempt next ih => simp only [Proc.bind, Wp, ih]
  | flock next ih => simp only [Proc.bind, Wp, ih]
  | read next ih => cases w <;> simp only [Proc.bind, Wp, ih]
  | create next ih => simp only [Proc.bind, Wp, ih]
  | write text next ih => simp only [Proc.bind, Wp, ih]
  | sync next ih => simp only [Proc.bind, Wp, ih]
  | rename next ih => simp only [Proc.bind, Wp, ih]
  | syncDir next ih => simp only [Proc.bind, Wp, ih]
  | remove next ih => simp only [Proc.bind, Wp, ih]

variable {β γ : Type}

/-- The second program runs where the first one succeeds. -/
theorem wp_run_bind {x : Run B E β} {f : β → Run B E γ} {Q : Option (View B α) → Except E γ → Prop} :
    Wp ReadsFail serve Q (x >>= f).run w ↔
      Wp ReadsFail serve (fun w r => match r with
        | .ok b => Wp ReadsFail serve Q (f b).run w
        | .error e => Q w (.error e)) x.run w := by
  refine wp_bind.trans (iff_of_eq (congrArg (Wp ReadsFail serve · x.run w) ?_))
  funext w r
  cases r <;> rfl

/-- The handler runs where the program fails. -/
theorem wp_tryCatch {x : Run B E β} {handler : E → Run B E β} {Q : Option (View B α) → Except E β → Prop} :
    Wp ReadsFail serve Q (tryCatch x handler).run w ↔
      Wp ReadsFail serve (fun w r => match r with
        | .ok b => Q w (.ok b)
        | .error e => Wp ReadsFail serve Q (handler e).run w) x.run w := by
  refine wp_bind.trans (iff_of_eq (congrArg (Wp ReadsFail serve · x.run w) ?_))
  funext w r
  cases r <;> rfl

end Rules

/-- What a call may return: outside the lock an error, before it is applied an error or the answer of a call that
changes nothing, and behind that its answer, or an error that comes late. If answers are durable, the directory
is synced before a change is answered. -/
def Served (serve : Option (List B) → Except E α × Option (List B)) (late : E → Prop) (Durable : Prop) :
    Option (View B α) → Except E α → Prop
  | none, result => ∃ e, result = .error e
  | some v, result =>
      match v.answer with
      | none => (∃ e, result = .error e) ∨ ∃ a, result = .ok a ∧ serve v.store = (.ok a, none)
      | some a => (result = .ok a ∧ (Durable → v.synced = true)) ∨ ∃ e, result = .error e ∧ late e

end Kyth.LockedFile
