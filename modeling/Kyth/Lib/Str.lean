import Mathlib.Data.List.Basic
import Mathlib.Data.List.DropRight
import Mathlib.Data.List.Infix
import Mathlib.Data.String.Basic
import Mathlib.Tactic

/-!
# The string operations of the Rust standard library

The `str` methods that parsers of untrusted text rest on, as functions on `String` that compute
on the list of characters. Predicates over `bytes()` that accept only ASCII bytes are stated over
characters: every byte of a multi-byte character is at least `0x80`, so both reject it.

* `trim`, `trimEndMatches`, `toAsciiLowercase`, `eqIgnoreAsciiCase`, `stripPrefix`, `contains`;
* `parseI64`, `parseU64` and `parseUnsigned`, the integer parsers behind `str::parse`;
* `debug`, the `{:?}` form of a string.
-/

namespace Kyth.Str

/-- `char::is_whitespace`: the Unicode property `White_Space`. -/
def isWhitespace (c : Char) : Bool :=
  let n := c.toNat
  (9 ≤ n && n ≤ 13) || n == 0x20 || n == 0x85 || n == 0xA0 || n == 0x1680 ||
    (0x2000 ≤ n && n ≤ 0x200A) || n == 0x2028 || n == 0x2029 || n == 0x202F || n == 0x205F ||
    n == 0x3000

/-- `char::is_control`: the Unicode category `Cc`. -/
def isControl (c : Char) : Bool :=
  c.toNat < 0x20 || (0x7F ≤ c.toNat && c.toNat < 0xA0)

/-- `u8::is_ascii_digit`. -/
def isAsciiDigit (c : Char) : Bool := 48 ≤ c.toNat && c.toNat ≤ 57

/-- `u8::is_ascii_alphanumeric`. -/
def isAsciiAlphanumeric (c : Char) : Bool :=
  isAsciiDigit c || (65 ≤ c.toNat && c.toNat ≤ 90) || (97 ≤ c.toNat && c.toNat ≤ 122)

/-- `u8::is_ascii_hexdigit`. -/
def isAsciiHexdigit (c : Char) : Bool :=
  isAsciiDigit c || (65 ≤ c.toNat && c.toNat ≤ 70) || (97 ≤ c.toNat && c.toNat ≤ 102)

/-- `str::trim`. -/
def trim (s : String) : String :=
  String.ofList ((s.toList.dropWhile isWhitespace).reverse.dropWhile isWhitespace).reverse

/-- `str::trim_end_matches` for one character. -/
def trimEndMatches (s : String) (c : Char) : String :=
  String.ofList (s.toList.reverse.dropWhile (· == c)).reverse

/-- `char::to_ascii_lowercase`. -/
def charLower (c : Char) : Char :=
  if 65 ≤ c.toNat ∧ c.toNat ≤ 90 then Char.ofNat (c.toNat + 32) else c

/-- `str::to_ascii_lowercase`. -/
def toAsciiLowercase (s : String) : String := String.ofList (s.toList.map charLower)

/-- `str::eq_ignore_ascii_case`. -/
def eqIgnoreAsciiCase (s t : String) : Bool := toAsciiLowercase s == toAsciiLowercase t

/-- `str::starts_with`. -/
def startsWith (s p : String) : Bool := p.toList.isPrefixOf s.toList

/-- `str::ends_with`. -/
def endsWith (s suffix : String) : Bool := suffix.toList.isSuffixOf s.toList

/-- `str::strip_prefix`. -/
def stripPrefix (s p : String) : Option String :=
  if startsWith s p then some (String.ofList (s.toList.drop p.toList.length)) else none

/-- `str::contains` for a pattern string. -/
def contains (s p : String) : Bool := decide (p.toList <:+: s.toList)

/-- `str::contains` for a character. -/
def containsChar (s : String) (c : Char) : Bool := s.toList.contains c

/-- `bytes().all(p)` for a predicate `p` that holds of ASCII characters only. -/
def all (s : String) (p : Char → Bool) : Bool := s.toList.all p

/-- The first piece of `str::split` at a character. -/
def splitFirst (s : String) (c : Char) : String := String.ofList (s.toList.takeWhile (· != c))

/-- The pieces of `str::split` at a character. -/
def split (s : String) (c : Char) : List String := (s.toList.splitOn c).map String.ofList

/-- Text without white space is its own trimmed form. -/
theorem trim_eq_self {s : String} (h : ∀ c ∈ s.toList, isWhitespace c = false) : trim s = s := by
  have hdrop : ∀ l : List Char, (∀ c ∈ l, isWhitespace c = false) →
      l.dropWhile isWhitespace = l := by
    intro l hl
    cases l with
    | nil => rfl
    | cons c l => rw [List.dropWhile_cons_of_neg (by simp [hl c List.mem_cons_self])]
  unfold trim
  rw [hdrop _ h, hdrop _ (fun c hc => h c (List.mem_reverse.1 hc)), List.reverse_reverse,
    String.ofList_toList]

@[simp] theorem toAsciiLowercase_idem (s : String) :
    toAsciiLowercase (toAsciiLowercase s) = toAsciiLowercase s := by
  have hchar : ∀ c, charLower (charLower c) = charLower c := by
    intro c
    unfold charLower
    by_cases hupper : 65 ≤ c.toNat ∧ c.toNat ≤ 90
    · have hnat : (Char.ofNat (c.toNat + 32)).toNat = c.toNat + 32 := by
        have hvalid : (c.toNat + 32).isValidChar := Or.inl (by omega)
        rw [Char.ofNat, dif_pos hvalid]
        rfl
      rw [if_pos hupper, if_neg (by rw [hnat]; omega)]
    · rw [if_neg hupper, if_neg hupper]
  unfold toAsciiLowercase
  rw [String.toList_ofList, List.map_map]
  exact congrArg String.ofList (List.map_congr_left fun c _ => hchar c)

/-- Lower-casing moves nothing in or out of the white space. -/
theorem isWhitespace_charLower (c : Char) : isWhitespace (charLower c) = isWhitespace c := by
  unfold charLower
  split_ifs with hupper
  · have hnat : (Char.ofNat (c.toNat + 32)).toNat = c.toNat + 32 := by
      have hvalid : (c.toNat + 32).isValidChar := Or.inl (by omega)
      rw [Char.ofNat, dif_pos hvalid]
      rfl
    unfold isWhitespace
    rw [Bool.eq_iff_iff]
    simp only [hnat, Bool.or_eq_true, Bool.and_eq_true, decide_eq_true_eq, beq_iff_eq]
    omega
  · rfl

theorem trim_toAsciiLowercase (s : String) :
    trim (toAsciiLowercase s) = toAsciiLowercase (trim s) := by
  have hspace : isWhitespace ∘ charLower = isWhitespace := funext isWhitespace_charLower
  unfold trim toAsciiLowercase
  rw [String.toList_ofList, String.toList_ofList, List.dropWhile_map, hspace, ← List.map_reverse,
    List.dropWhile_map, hspace, ← List.map_reverse]

/-- Trimming twice is trimming once. -/
@[simp] theorem trim_trim (s : String) : trim (trim s) = trim s := by
  have hfront : ∀ l : List Char, (l.dropWhile isWhitespace).rdropWhile isWhitespace =
      ((l.dropWhile isWhitespace).rdropWhile isWhitespace).dropWhile isWhitespace := by
    intro l
    symm
    rw [List.dropWhile_eq_self_iff]
    intro hlen
    have hinit := List.rdropWhile_prefix isWhitespace (l.dropWhile isWhitespace)
    rw [hinit.getElem hlen]
    exact List.dropWhile_get_zero_not _ _ _
  have hsplit : ∀ t : String, trim t =
      String.ofList ((t.toList.dropWhile isWhitespace).rdropWhile isWhitespace) := fun t => rfl
  rw [hsplit (trim s), hsplit s, String.toList_ofList, ← hfront, List.rdropWhile_idempotent]

@[simp] theorem trimEndMatches_idem (s : String) (c : Char) :
    trimEndMatches (trimEndMatches s c) c = trimEndMatches s c := by
  have hsplit : ∀ t : String, trimEndMatches t c = String.ofList (t.toList.rdropWhile (· == c)) :=
    fun t => rfl
  rw [hsplit (trimEndMatches s c), hsplit s, String.toList_ofList, List.rdropWhile_idempotent]

theorem mem_of_mem_trimEndMatches {s : String} {c d : Char}
    (h : d ∈ (trimEndMatches s c).toList) : d ∈ s.toList := by
  rw [trimEndMatches, String.toList_ofList, List.mem_reverse] at h
  exact List.mem_reverse.1 ((List.dropWhile_suffix _).subset h)

theorem startsWith_append (p s : String) : startsWith (p ++ s) p = true := by
  simp [startsWith]

/-- Two patterns at the start of one text have the same first letter. -/
theorem startsWith_head_eq {s p q : String} (hp : startsWith s p = true)
    (hq : startsWith s q = true) (hpe : p ≠ "") (hqe : q ≠ "") :
    p.toList.head? = q.toList.head? := by
  unfold startsWith at hp hq
  rw [List.isPrefixOf_iff_prefix] at hp hq
  obtain ⟨a, ha⟩ := hp
  obtain ⟨b, hb⟩ := hq
  have hp' : p.toList ≠ [] := fun h => hpe (String.ext (by simpa using h))
  have hq' : q.toList ≠ [] := fun h => hqe (String.ext (by simpa using h))
  rw [← List.head?_append_of_ne_nil _ hp', ha, ← hb, List.head?_append_of_ne_nil _ hq']

/-- The only path of one byte is the root. -/
theorem eq_slash_of_short {s : String} (hslash : startsWith s "/" = true)
    (hshort : ¬ s.utf8ByteSize > 1) : s = "/" := by
  unfold startsWith at hslash
  rw [List.isPrefixOf_iff_prefix] at hslash
  obtain ⟨rest, hrest⟩ := hslash
  have hs : s = "/" ++ String.ofList rest := by
    apply String.ext
    rw [String.toList_append, String.toList_ofList, String.toList_ofList]
    exact hrest.symm
  rw [hs, String.utf8ByteSize_append] at hshort
  have hone : "/".utf8ByteSize = 1 := by decide
  have hzero : (String.ofList rest).utf8ByteSize = 0 := by omega
  rw [String.utf8ByteSize_eq_zero_iff] at hzero
  rw [hs, hzero]
  rfl

/-! ### Integer parsing -/

/-- A nonempty run of decimal digits. -/
def parseDigits (l : List Char) : Option ℕ :=
  if l ≠ [] ∧ l.all isAsciiDigit then some (l.foldl (fun n c => 10 * n + (c.toNat - 48)) 0)
  else none

/-- `str::parse::<i64>`: an optional sign and digits, refused when out of range. -/
def parseI64 (s : String) : Option ℤ :=
  match s.toList with
  | '+' :: l => (parseDigits l).bind fun n => if n < 2 ^ 63 then some (n : ℤ) else none
  | '-' :: l => (parseDigits l).bind fun n => if n ≤ 2 ^ 63 then some (-(n : ℤ)) else none
  | l => (parseDigits l).bind fun n => if n < 2 ^ 63 then some (n : ℤ) else none

/-- `str::parse::<u64>`: an optional `+` and digits, refused when out of range. -/
def parseU64 (s : String) : Option UInt64 :=
  match s.toList with
  | '+' :: l => (parseDigits l).bind fun n => if n < 2 ^ 64 then some (UInt64.ofNat n) else none
  | l => (parseDigits l).bind fun n => if n < 2 ^ 64 then some (UInt64.ofNat n) else none

/-- `str::parse` for an unsigned type of some width: an optional `+` and digits, refused when out of range. -/
def parseUnsigned (width : ℕ) (l : List Char) : Option ℕ :=
  let digits := match l with
    | '+' :: l => l
    | l => l
  (parseDigits digits).filter (· < 2 ^ width)

/-- A positive `i64` reads the same as a `u64`. -/
theorem parseU64_of_parseI64 {s : String} {v : ℤ} (h : parseI64 s = some v) (hv : 0 < v) :
    ∃ u, parseU64 s = some u ∧ (u.toNat : ℤ) = v := by
  unfold parseI64 at h
  unfold parseU64
  have key : ∀ l : List Char,
      ((parseDigits l).bind fun n => if n < 2 ^ 63 then some (n : ℤ) else none) = some v →
      ∃ u, ((parseDigits l).bind fun n => if n < 2 ^ 64 then some (UInt64.ofNat n) else none) =
        some u ∧ (u.toNat : ℤ) = v := by
    intro l hl
    obtain ⟨n, hn, hb⟩ := Option.bind_eq_some_iff.1 hl
    split_ifs at hb with hlt
    cases hb
    have hlt' : n < 2 ^ 64 := by omega
    refine ⟨UInt64.ofNat n, by rw [hn, Option.bind_some, if_pos hlt'], ?_⟩
    rw [UInt64.toNat_ofNat_of_lt' hlt']
  generalize s.toList = t at h ⊢
  split at h
  · exact key _ h
  · -- a leading minus only yields a nonpositive value
    obtain ⟨n, -, hb⟩ := Option.bind_eq_some_iff.1 h
    split_ifs at hb
    cases hb
    omega
  · rename_i l hplus hminus
    split
    · rename_i l'
      exact absurd rfl (hplus l')
    · exact key _ h

/-- The value of `parseI64` fits in an `i64`. -/
theorem parseI64_lt {s : String} {v : ℤ} (h : parseI64 s = some v) : v < 2 ^ 63 := by
  unfold parseI64 at h
  split at h <;> obtain ⟨n, -, hb⟩ := Option.bind_eq_some_iff.1 h <;> split_ifs at hb <;>
    cases hb <;> omega

/-! ### Formatting -/

/-- The two lower-case hexadecimal digits of a byte, without leading zeros. -/
def hex (n : ℕ) : String := String.ofList (Nat.toDigits 16 n)

/-- One character of `{:?}`: quotes, backslashes and control characters are escaped. -/
def debugChar (c : Char) : String :=
  if c = '"' then "\\\"" else if c = '\\' then "\\\\" else if c = '\n' then "\\n"
  else if c = '\r' then "\\r" else if c = '\t' then "\\t" else if c.toNat = 0 then "\\0"
  else if isControl c then "\\u\x7b" ++ hex c.toNat ++ "\x7d" else String.singleton c

/-- The `{:?}` form of a string whose characters are all printable or control characters. -/
def debug (s : String) : String := "\"" ++ String.join (s.toList.map debugChar) ++ "\""

end Kyth.Str
