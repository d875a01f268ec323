import Kyth.Lib.Str

/-!
# JSON values

The value type of a JSON library: objects are association lists, numbers keep the three shapes a
parser distinguishes. The accessors return `none` on a value of another type, and `get` on
anything that is not an object.
-/

namespace Kyth.Json

/-- A JSON number: a nonnegative integer, the negative integer `-(n + 1)`, or a number that is
not an integer (its bits). -/
inductive Number
  | posInt (n : UInt64)
  | negInt (n : Fin (2 ^ 63))
  | float (bits : UInt64)
  deriving DecidableEq, Repr

/-- A JSON value. -/
inductive Value
  | null
  | bool (b : Bool)
  | number (n : Number)
  | string (s : String)
  | array (values : List Value)
  | object (fields : List (String × Value))
  deriving Repr, Inhabited

/-- `Number::as_i64`. -/
def Number.asI64 : Number → Option ℤ
  | .posInt n => if n.toNat < 2 ^ 63 then some n.toNat else none
  | .negInt n => some (-(n.val + 1 : ℤ))
  | .float _ => none

/-- `Number::as_u64`. -/
def Number.asU64 : Number → Option UInt64
  | .posInt n => some n
  | _ => none

namespace Value

/-- `Value::get` with a string key. -/
def get (v : Value) (key : String) : Option Value :=
  match v with
  | .object fields => fields.lookup key
  | _ => none

/-- `Value::as_str`. -/
def asStr : Value → Option String
  | .string s => some s
  | _ => none

/-- `Value::as_bool`. -/
def asBool : Value → Option Bool
  | .bool b => some b
  | _ => none

/-- `Value::as_u64`. -/
def asU64 : Value → Option UInt64
  | .number n => n.asU64
  | _ => none

/-- `Value::as_array`. -/
def asArray : Value → Option (List Value)
  | .array values => some values
  | _ => none

/-- Write a key of a field list, keeping its place when it is already there. -/
def setField (key : String) (v : Value) : List (String × Value) → List (String × Value)
  | [] => [(key, v)]
  | (k, w) :: fields => if k = key then (k, v) :: fields else (k, w) :: setField key v fields

/-- The assignment `value[key] = v`. Indexing a scalar or an array by a string is a programming
error that no caller commits; it leaves the value as it is here. -/
def set (value : Value) (key : String) (v : Value) : Value :=
  match value with
  | .object fields => .object (setField key v fields)
  | .null => .object [(key, v)]
  | other => other

/-- A number from a nonnegative integer literal. -/
def nat (n : UInt64) : Value := .number (.posInt n)

/-- Write some keys of a field list, one after the other. -/
def setFields (entries fields : List (String × Value)) : List (String × Value) :=
  entries.foldl (fun fields e => setField e.1 e.2 fields) fields

section Fields

variable {fields entries : List (String × Value)} {key other : String} {v : Value}

theorem lookup_setField (key : String) (v : Value) (fields : List (String × Value)) :
    (setField key v fields).lookup key = some v := by
  induction fields with
  | nil => exact List.lookup_cons_self
  | cons f fields ih =>
    obtain ⟨k, w⟩ := f
    rw [setField]
    split_ifs with hk
    · subst hk
      exact List.lookup_cons_self
    · have hbeq : (key == k) = false := beq_false_of_ne (Ne.symm hk)
      rw [List.lookup_cons, hbeq, ih]

theorem lookup_setField_of_ne (h : other ≠ key) (v : Value) (fields : List (String × Value)) :
    (setField key v fields).lookup other = fields.lookup other := by
  have hbeq : (other == key) = false := beq_false_of_ne h
  induction fields with
  | nil => rw [setField, List.lookup_cons, hbeq]
  | cons f fields ih =>
    obtain ⟨k, w⟩ := f
    rw [setField]
    split_ifs with hk
    · subst hk
      rw [List.lookup_cons, List.lookup_cons, hbeq]
    · rw [List.lookup_cons, List.lookup_cons, ih]

/-- Writing what is there changes nothing. -/
theorem setField_eq_self (h : fields.lookup key = some v) : setField key v fields = fields := by
  induction fields with
  | nil => cases h
  | cons f fields ih =>
    obtain ⟨k, w⟩ := f
    rw [setField]
    split_ifs with hk
    · subst hk
      rw [List.lookup_cons_self, Option.some.injEq] at h
      rw [h]
    · have hbeq : (key == k) = false := beq_false_of_ne (Ne.symm hk)
      rw [List.lookup_cons, hbeq] at h
      rw [ih h]

theorem lookup_setFields_of_notMem (h : other ∉ entries.map Prod.fst)
    (fields : List (String × Value)) :
    (setFields entries fields).lookup other = fields.lookup other := by
  induction entries generalizing fields with
  | nil => rfl
  | cons e entries ih =>
    rw [List.map_cons, List.mem_cons, not_or] at h
    rw [setFields, List.foldl_cons]
    exact (ih h.2 _).trans (lookup_setField_of_ne h.1 _ _)

theorem lookup_setFields (hnodup : (entries.map Prod.fst).Nodup) (h : (key, v) ∈ entries)
    (fields : List (String × Value)) : (setFields entries fields).lookup key = some v := by
  induction entries generalizing fields with
  | nil => cases h
  | cons e entries ih =>
    rw [List.map_cons, List.nodup_cons] at hnodup
    rw [setFields, List.foldl_cons]
    obtain rfl | h := List.mem_cons.1 h
    · exact (lookup_setFields_of_notMem hnodup.1 _).trans (lookup_setField key v fields)
    · exact ih hnodup.2 h _

theorem setFields_eq_self (h : ∀ e ∈ entries, fields.lookup e.1 = some e.2) :
    setFields entries fields = fields := by
  induction entries with
  | nil => rfl
  | cons e entries ih =>
    rw [setFields, List.foldl_cons, setField_eq_self (h e List.mem_cons_self)]
    exact ih fun e' he' => h e' (List.mem_cons_of_mem _ he')

/-- Writing the same keys twice is writing them once. -/
theorem setFields_idem (hnodup : (entries.map Prod.fst).Nodup) (fields : List (String × Value)) :
    setFields entries (setFields entries fields) = setFields entries fields :=
  setFields_eq_self fun _ he => lookup_setFields hnodup he fields

end Fields

end Value

end Kyth.Json
