import Kyth.Lib.Json
import Mathlib.Data.List.Forall2

/-!
# The compact text of JSON values

A writer for null, natural numbers, strings that need no escapes, arrays and objects, with no blanks between
them, and a reader for its texts. `read_eq` puts the two together: `Reads text value` holds of every text that
the writer makes for a value, piece by piece.
-/

namespace Kyth.JsonText

open Json

/-! ### The writer -/

def nullText : List Char := ['n', 'u', 'l', 'l']

def natText (n : UInt64) : List Char := Nat.toDigits 10 n.toNat

/-- A string of plain characters. -/
def quoted (s : String) : List Char := '"' :: (s.toList ++ ['"'])

def arrayText (items : List (List Char)) : List Char := '[' :: ([','].intercalate items ++ [']'])

def memberText (field : String × List Char) : List Char := quoted field.1 ++ ':' :: field.2

def objectText (fields : List (String × List Char)) : List Char :=
  '{' :: ([','].intercalate (fields.map memberText) ++ ['}'])

/-! ### The reader -/

/-- A character that stands for itself in a string. -/
def isPlain (c : Char) : Bool := c != '"' && c != '\\' && 0x20 ≤ c.toNat

/-- A string, behind its first quote. -/
def readString (text : List Char) : Option (String × List Char) :=
  match text.dropWhile (· ≠ '"') with
  | [] => none
  | _ :: rest =>
      let s := text.takeWhile (· ≠ '"')
      if s.all isPlain then some (String.ofList s, rest) else none

def readNat (text : List Char) : Option (Value × List Char) :=
  let digits := text.takeWhile Char.isDigit
  let n := Nat.ofDigitChars 10 digits 0
  if digits = [] ∨ 2 ^ 64 ≤ n then none
  else some (.nat (UInt64.ofNat n), text.dropWhile Char.isDigit)

mutual

/-- A value in front of some more text. -/
def readValue : ℕ → List Char → Option (Value × List Char)
  | 0, _ => none
  | _ + 1, [] => none
  | fuel + 1, c :: text =>
      if c = 'n' then
        if ['u', 'l', 'l'] <+: text then some (.null, text.drop 3) else none
      else if c = '"' then (readString text).map fun p => (.string p.1, p.2)
      else if c = '[' then
        if text.head? = some ']' then some (.array [], text.tail)
        else (readItems fuel text).map fun p => (.array p.1, p.2)
      else if c = '{' then
        if text.head? = some '}' then some (.object [], text.tail)
        else (readMembers fuel text).map fun p => (.object p.1, p.2)
      else readNat (c :: text)

/-- The items of an array, behind its bracket or a comma. -/
def readItems : ℕ → List Char → Option (List Value × List Char)
  | 0, _ => none
  | fuel + 1, text => (readValue fuel text).bind fun item =>
      if item.2.head? = some ',' then
        (readItems fuel item.2.tail).map fun p => (item.1 :: p.1, p.2)
      else if item.2.head? = some ']' then some ([item.1], item.2.tail)
      else none

/-- The members of an object, behind its brace or a comma. -/
def readMembers : ℕ → List Char → Option (List (String × Value) × List Char)
  | 0, _ => none
  | fuel + 1, text =>
      if text.head? = some '"' then
        (readString text.tail).bind fun key =>
          if key.2.head? = some ':' then
            (readValue fuel key.2.tail).bind fun value =>
              if value.2.head? = some ',' then
                (readMembers fuel value.2.tail).map fun p => ((key.1, value.1) :: p.1, p.2)
              else if value.2.head? = some '}' then some ([(key.1, value.1)], value.2.tail)
              else none
          else none
      else none

end

/-- A text that is one value. -/
def read (text : List Char) : Option Value :=
  match readValue text.length text with
  | some (value, []) => some value
  | _ => none

/-! ### Texts that are read -/

/-- What follows is not taken for more digits of a number. -/
def Delimits (rest : List Char) : Prop := ∀ c ∈ rest.head?, c.isDigit = false

/-- The text is read as the value, whatever follows it. -/
def Reads (text : List Char) (value : Value) : Prop :=
  ∀ fuel rest, text.length ≤ fuel → Delimits rest → readValue fuel (text ++ rest) = some (value, rest)

section Reads

variable {text rest : List Char} {value : Value} {items : List (List Char)} {values : List Value}
  {fields : List (String × List Char)} {members : List (String × Value)} {s : String} {fuel : ℕ}

theorem delimits_nil : Delimits [] := fun _ h => nomatch h

theorem delimits_cons {c : Char} (h : c.isDigit = false) (rest : List Char) : Delimits (c :: rest) := by
  intro d hd
  rw [List.head?_cons, Option.mem_some_iff] at hd
  exact hd ▸ h

theorem Reads.ne_nil (h : Reads text value) : text ≠ [] := by
  rintro rfl
  exact nomatch h 0 [] (Nat.le_refl _) delimits_nil

/-- An item is not taken for the end of its array. -/
theorem Reads.head?_ne (h : Reads text value) (rest : List Char) : (text ++ rest).head? ≠ some ']' := by
  obtain ⟨c, text, rfl⟩ := List.exists_cons_of_ne_nil h.ne_nil
  rw [List.cons_append, List.head?_cons, ne_eq, Option.some.injEq]
  rintro rfl
  have hread := h _ [] (Nat.le_refl _) delimits_nil
  rw [List.append_nil, List.length_cons] at hread
  exact nomatch hread

theorem reads_null : Reads nullText .null := by
  intro fuel rest hfuel _
  obtain ⟨fuel, rfl⟩ : ∃ k, fuel = k + 1 := Nat.exists_eq_succ_of_ne_zero (Nat.ne_zero_of_lt hfuel)
  simp [nullText, readValue]

theorem readString_append (h : ∀ c ∈ s.toList, isPlain c = true) (rest : List Char) :
    readString (s.toList ++ '"' :: rest) = some (s, rest) := by
  have hquote : ∀ c ∈ s.toList, decide (c ≠ '"') = true := fun c hc => by
    have hplain := h c hc
    simp only [isPlain, Bool.and_eq_true, bne_iff_ne] at hplain
    exact decide_eq_true hplain.1.1
  have hdrop : (s.toList ++ '"' :: rest).dropWhile (· ≠ '"') = '"' :: rest := by
    rw [List.dropWhile_append_of_pos hquote, List.dropWhile_cons_of_neg (by simp)]
  have htake : (s.toList ++ '"' :: rest).takeWhile (· ≠ '"') = s.toList := by
    rw [List.takeWhile_append_of_pos hquote, List.takeWhile_cons_of_neg (by simp), List.append_nil]
  unfold readString
  rw [hdrop]
  dsimp only
  rw [htake, if_pos (List.all_eq_true.2 h), String.ofList_toList]

theorem reads_quoted (h : ∀ c ∈ s.toList, isPlain c = true) : Reads (quoted s) (.string s) := by
  intro fuel rest hfuel _
  obtain ⟨fuel, rfl⟩ : ∃ k, fuel = k + 1 := Nat.exists_eq_succ_of_ne_zero (Nat.ne_zero_of_lt hfuel)
  rw [quoted, List.cons_append, List.append_assoc, List.singleton_append, readValue,
    if_neg (by decide), if_pos rfl, readString_append h]
  rfl

theorem reads_nat (n : UInt64) : Reads (natText n) (.nat n) := by
  intro fuel rest hfuel hrest
  have hdigits : ∀ c ∈ natText n, c.isDigit = true := fun c hc =>
    Nat.isDigit_of_mem_toDigits (by decide) (by decide) hc
  have hne : natText n ≠ [] := Nat.toDigits_ne_nil
  have htake : (natText n ++ rest).takeWhile Char.isDigit = natText n := by
    rw [List.takeWhile_append_of_pos hdigits]
    cases rest with
    | nil => rw [List.takeWhile_nil, List.append_nil]
    | cons c rest =>
      have hc := hrest c rfl
      rw [List.takeWhile_cons_of_neg (by simp [hc]), List.append_nil]
  have hdrop : (natText n ++ rest).dropWhile Char.isDigit = rest := by
    rw [List.dropWhile_append_of_pos hdigits]
    cases rest with
    | nil => rfl
    | cons c rest =>
      have hc := hrest c rfl
      rw [List.dropWhile_cons_of_neg (by simp [hc])]
  have hnat : readNat (natText n ++ rest) = some (.nat n, rest) := by
    unfold readNat
    dsimp only
    have hvalue : Nat.ofDigitChars 10 (natText n) 0 = n.toNat := Nat.ofDigitChars_ten_toDigits
    have hbound : ¬ (natText n = [] ∨ 2 ^ 64 ≤ n.toNat) := by
      rintro (hnil | hlarge)
      · exact hne hnil
      · exact absurd n.toNat_lt (Nat.not_lt.2 hlarge)
    rw [htake, hdrop, hvalue, if_neg hbound, UInt64.ofNat_toNat]
  obtain ⟨c, digits, hcons⟩ := List.exists_cons_of_ne_nil hne
  obtain ⟨fuel, rfl⟩ : ∃ k, fuel = k + 1 := by
    rw [hcons] at hfuel
    exact Nat.exists_eq_succ_of_ne_zero (Nat.ne_zero_of_lt hfuel)
  have hc : c.isDigit = true := hdigits c (hcons ▸ List.mem_cons_self)
  -- a digit is none of the characters that another value begins with
  have hother : ∀ d : Char, d.isDigit = false → c ≠ d := fun d hd heq => by
    rw [heq, hd] at hc
    cases hc
  rw [← hnat, hcons, List.cons_append, readValue, if_neg (hother _ (by decide)),
    if_neg (hother _ (by decide)), if_neg (hother _ (by decide)), if_neg (hother _ (by decide))]

/-- The items, one after the other. -/
theorem readItems_intercalate (h : List.Forall₂ Reads items values) (hne : items ≠ []) (rest : List Char)
    (hfuel : ([','].intercalate items).length < fuel) :
    readItems fuel ([','].intercalate items ++ ']' :: rest) = some (values, rest) := by
  induction h generalizing fuel with
  | nil => exact absurd rfl hne
  | @cons item value items values hitem htail ih =>
    obtain ⟨fuel, rfl⟩ : ∃ k, fuel = k + 1 := Nat.exists_eq_succ_of_ne_zero (Nat.ne_zero_of_lt hfuel)
    cases htail with
    | nil =>
      rw [List.intercalate_singleton] at hfuel ⊢
      rw [readItems, hitem fuel _ (by omega) (delimits_cons (by decide) _)]
      rfl
    | @cons next value' items values hnext htail =>
      rw [List.intercalate_cons_cons] at hfuel ⊢
      simp only [List.length_append, List.length_singleton] at hfuel
      rw [List.append_assoc, List.append_assoc, List.singleton_append, readItems,
        hitem fuel _ (by omega) (delimits_cons (by decide) _), Option.bind_some]
      simp only [List.head?_cons, List.tail_cons, if_pos]
      rw [ih (List.cons_ne_nil _ _) (by omega)]
      rfl

theorem reads_array (h : List.Forall₂ Reads items values) : Reads (arrayText items) (.array values) := by
  intro fuel rest hfuel _
  obtain ⟨fuel, rfl⟩ : ∃ k, fuel = k + 1 := Nat.exists_eq_succ_of_ne_zero (Nat.ne_zero_of_lt hfuel)
  rw [arrayText, List.cons_append, List.append_assoc, List.singleton_append, readValue,
    if_neg (by decide), if_neg (by decide), if_pos rfl]
  cases h with
  | nil => rfl
  | @cons item value items values hitem htail =>
    have hopen : ([','].intercalate (item :: items) ++ ']' :: rest).head? ≠ some ']' := by
      cases items with
      | nil =>
        rw [List.intercalate_singleton]
        exact hitem.head?_ne _
      | cons next items =>
        rw [List.intercalate_cons_cons, List.append_assoc, List.append_assoc]
        exact hitem.head?_ne _
    simp only [arrayText, List.length_cons, List.length_append, List.length_nil] at hfuel
    rw [if_neg hopen, readItems_intercalate (.cons hitem htail) (List.cons_ne_nil _ _) rest (by omega)]
    rfl

/-- A field and the member that it is read as. -/
def ReadsMember (field : String × List Char) (member : String × Value) : Prop :=
  field.1 = member.1 ∧ (∀ c ∈ field.1.toList, isPlain c = true) ∧ Reads field.2 member.2

theorem readsMember (hkey : s.toList.all isPlain = true) (h : Reads text value) :
    ReadsMember (s, text) (s, value) := ⟨rfl, List.all_eq_true.1 hkey, h⟩

/-- One member: its key, the colon and its value, in front of a character that ends it. -/
theorem readMembers_member {field : String × List Char} {member : String × Value} {c : Char}
    (after : List Char) (h : ReadsMember field member) (hfuel : field.2.length ≤ fuel)
    (hc : c.isDigit = false) :
    readMembers (fuel + 1) (memberText field ++ c :: after) =
      if c = ',' then (readMembers fuel after).map fun p => (member :: p.1, p.2)
      else if c = '}' then some ([member], after) else none := by
  obtain ⟨name, valueText⟩ := field
  obtain ⟨name', value⟩ := member
  obtain ⟨hname, hplain, hvalue⟩ := h
  dsimp only at hname hplain hvalue hfuel
  subst hname
  simp only [memberText, quoted, List.cons_append, List.append_assoc, List.nil_append]
  rw [readMembers, List.head?_cons, if_pos rfl, List.tail_cons, readString_append hplain, Option.bind_some]
  simp only [List.head?_cons, List.tail_cons, if_pos]
  rw [hvalue fuel _ hfuel (delimits_cons hc _), Option.bind_some]
  simp only [List.head?_cons, List.tail_cons, Option.some.injEq]

/-- The members, one after the other. -/
theorem readMembers_intercalate (h : List.Forall₂ ReadsMember fields members) (hne : fields ≠ [])
    (rest : List Char) (hfuel : ([','].intercalate (fields.map memberText)).length < fuel) :
    readMembers fuel ([','].intercalate (fields.map memberText) ++ '}' :: rest) = some (members, rest) := by
  induction h generalizing fuel with
  | nil => exact absurd rfl hne
  | @cons field member fields members hfield htail ih =>
    obtain ⟨fuel, rfl⟩ : ∃ k, fuel = k + 1 := Nat.exists_eq_succ_of_ne_zero (Nat.ne_zero_of_lt hfuel)
    have hvalue : field.2.length < (memberText field).length := by
      rw [memberText, List.length_append, List.length_cons]
      omega
    cases htail with
    | nil =>
      rw [List.map_singleton, List.intercalate_singleton] at hfuel ⊢
      rw [readMembers_member rest hfield (by omega) (by decide), if_neg (by decide), if_pos rfl]
    | @cons next member' fields members hnext htail =>
      rw [List.map_cons, List.map_cons, List.intercalate_cons_cons] at hfuel ⊢
      simp only [List.length_append, List.length_singleton] at hfuel
      rw [List.append_assoc, List.append_assoc, List.singleton_append,
        readMembers_member _ hfield (by omega) (by decide), if_pos rfl]
      rw [List.map_cons] at ih
      rw [ih (List.cons_ne_nil _ _) (by omega)]
      rfl

theorem reads_object (h : List.Forall₂ ReadsMember fields members) :
    Reads (objectText fields) (.object members) := by
  intro fuel rest hfuel _
  obtain ⟨fuel, rfl⟩ : ∃ k, fuel = k + 1 := Nat.exists_eq_succ_of_ne_zero (Nat.ne_zero_of_lt hfuel)
  rw [objectText, List.cons_append, List.append_assoc, List.singleton_append, readValue,
    if_neg (by decide), if_neg (by decide), if_neg (by decide), if_pos rfl]
  cases h with
  | nil => rfl
  | @cons field member fields members hfield htail =>
    have hopen : ([','].intercalate ((field :: fields).map memberText) ++ '}' :: rest).head? ≠ some '}' := by
      cases fields <;> simp [memberText, quoted]
    simp only [objectText, List.length_cons, List.length_append, List.length_nil] at hfuel
    rw [if_neg hopen, readMembers_intercalate (.cons hfield htail) (List.cons_ne_nil _ _) rest (by omega)]
    rfl

/-- A text that the writer made is read back. -/
theorem read_eq (h : Reads text value) : read text = some value := by
  have hread := h text.length [] (Nat.le_refl _) delimits_nil
  rw [List.append_nil] at hread
  rw [read, hread]

end Reads

end Kyth.JsonText
