import Kyth.Lib.Json
import Mathlib.Data.List.AList

/-!
# Structures and maps as JSON

How a derived serializer writes 64-bit integers and string maps, and how a derived deserializer
reads a structure whose fields all have defaults: a missing key gives the default, and a key of the
wrong type fails the whole structure. Keys that the structure does not have are ignored.
-/

namespace Kyth.Serde

open Json

/-- The values of `i64`. -/
def InI64 (n : ℤ) : Prop := -2 ^ 63 ≤ n ∧ n < 2 ^ 63

instance (n : ℤ) : Decidable (InI64 n) := inferInstanceAs (Decidable (_ ∧ _))

/-- `Value::from` for an `i64`. -/
def ofI64 (n : ℤ) : Value :=
  if 0 ≤ n then .number (.posInt (UInt64.ofNat n.toNat))
  else .number (.negInt (Fin.ofNat (2 ^ 63) (-n - 1).toNat))

/-- Deserialize an `i64`. -/
def decodeI64 : Value → Option ℤ
  | .number n => n.asI64
  | _ => none

theorem decodeI64_ofI64 {n : ℤ} (h : InI64 n) : decodeI64 (ofI64 n) = some n := by
  obtain ⟨hlow, hhigh⟩ := h
  unfold ofI64
  split_ifs with hsign
  · have hnat : (UInt64.ofNat n.toNat).toNat = n.toNat := by
      rw [UInt64.toNat_ofNat', Nat.mod_eq_of_lt (by omega)]
    rw [decodeI64, Number.asI64, hnat, if_pos (by omega), Int.toNat_of_nonneg hsign]
  · have hval : (Fin.ofNat (2 ^ 63) (-n - 1).toNat).val = (-n - 1).toNat := by
      rw [Fin.val_ofNat, Nat.mod_eq_of_lt (by omega)]
    rw [decodeI64, Number.asI64, hval, Int.toNat_of_nonneg (by omega)]
    congr 1
    ring

/-- A field of a structure with a default. -/
def field {α : Type} (fields : List (String × Value)) (key : String) (fallback : α)
    (decode : Value → Option α) : Option α :=
  match fields.lookup key with
  | some v => decode v
  | none => some fallback

theorem field_of_lookup {α : Type} {fields : List (String × Value)} {key : String} {fallback : α}
    {decode : Value → Option α} {v : Value} (h : fields.lookup key = some v) :
    field fields key fallback decode = decode v := by
  rw [field, h]

section Map

variable {α β : Type}

/-- The entries of a string map with their values written by `encode`. -/
def encodeMap (encode : α → β) (m : AList fun _ : String => α) : List (String × β) :=
  m.entries.map fun e => (e.1, encode e.2)

/-- The map of the entries that `decode` keeps. -/
def collect (decode : String → β → Option α) (fields : List (String × β)) :
    AList fun _ : String => α :=
  fields.foldr (fun e m => match decode e.1 e.2 with | some a => m.insert e.1 a | none => m) ∅

/-- Deserialize a string map; one entry of the wrong type fails the whole map. -/
def decodeMap (decode : Value → Option α) : Value → Option (AList fun _ : String => α)
  | .object fields =>
      if fields.all fun e => (decode e.2).isSome then some (collect (fun _ v => decode v) fields)
      else none
  | _ => none

theorem collect_cons_of_some {decode : String → β → Option α} {key : String} {v : β} {a : α}
    (fields : List (String × β)) (h : decode key v = some a) :
    collect decode ((key, v) :: fields) = (collect decode fields).insert key a := by
  rw [collect, List.foldr_cons]
  simp only [h]
  rfl

/-- An entry list without repeated keys is collected in its order. -/
theorem collect_map {decode : String → β → Option α} {encode : α → β}
    (entries : List (Σ _ : String, α)) (hnodup : (entries.map Sigma.fst).Nodup)
    (h : ∀ e ∈ entries, decode e.1 (encode e.2) = some e.2) :
    (collect decode (entries.map fun e => (e.1, encode e.2))).entries = entries := by
  induction entries with
  | nil => rfl
  | cons e entries ih =>
    rw [List.map_cons, List.nodup_cons] at hnodup
    have ih := ih hnodup.2 fun e' he' => h e' (List.mem_cons_of_mem _ he')
    have hnew : e.1 ∉ collect decode (entries.map fun e => (e.1, encode e.2)) := by
      rw [AList.mem_keys, AList.keys, ih]
      exact hnodup.1
    rw [List.map_cons, collect_cons_of_some _ (h e List.mem_cons_self),
      AList.entries_insert_of_notMem hnew, ih]

/-- A map is read back as it was written, entry by entry. -/
theorem collect_encodeMap {decode : String → β → Option α} {encode : α → β}
    (m : AList fun _ : String => α)
    (h : ∀ key a, m.lookup key = some a → decode key (encode a) = some a) :
    collect decode (encodeMap encode m) = m := by
  refine AList.ext (collect_map m.entries m.nodupKeys fun e he => ?_)
  exact h e.1 e.2 (AList.mem_lookup_iff.2 he)

theorem decodeMap_encodeMap {decode : Value → Option α} {encode : α → Value}
    (m : AList fun _ : String => α)
    (h : ∀ key a, m.lookup key = some a → decode (encode a) = some a) :
    decodeMap decode (.object (encodeMap encode m)) = some m := by
  have hall : (encodeMap encode m).all (fun e => (decode e.2).isSome) = true := by
    rw [List.all_eq_true]
    intro e he
    obtain ⟨entry, hentry, rfl⟩ := List.mem_map.1 he
    rw [h entry.1 entry.2 (AList.mem_lookup_iff.2 hentry)]
    rfl
  rw [decodeMap, if_pos hall, collect_encodeMap m h]

end Map

end Kyth.Serde
