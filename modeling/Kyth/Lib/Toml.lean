import Kyth.Lib.Str

/-!
# Simple TOML documents

What TOML 1.0 says of documents in which every line is blank, a comment, or a bare key with a basic string
on that line or a Boolean. `readLines` reads the lines of such a document.
-/

namespace Kyth.Toml

open Str

inductive Value
  | string (text : List Char)
  | boolean (b : Bool)
  deriving DecidableEq, Repr

abbrev Table := List (List Char × Value)

/-- The value of a key. -/
def get (table : Table) (key : List Char) : Option Value := (table.find? (·.1 = key)).map Prod.snd

def asStr : Value → Option (List Char)
  | .string text => some text
  | .boolean _ => none

def asBool : Value → Option Bool
  | .string _ => none
  | .boolean b => some b

/-! ### Basic strings -/

/-- No control character but a tab. -/
def isNonEol (c : Char) : Bool := c == '\t' || (0x20 ≤ c.toNat && c.toNat != 0x7F)

def isBasicUnescaped (c : Char) : Bool := isNonEol c && c != '"' && c != '\\'

/-- The value of some hex digits. -/
def hexNumber (digits : List Char) : ℕ :=
  digits.foldl (fun n c => 16 * n +
    (if isAsciiDigit c then c.toNat - 48 else if c.toNat ≤ 70 then c.toNat - 55 else c.toNat - 87)) 0

/-- The character of an escape with a fixed number of hex digits, and the rest. -/
def readScalar (count : ℕ) (text : List Char) : Option (Char × List Char) :=
  let digits := text.take count
  if digits.length = count ∧ digits.all isAsciiHexdigit ∧ (hexNumber digits).isValidChar then
    some (Char.ofNat (hexNumber digits), text.drop count)
  else none

/-- An escape, from what stands behind the backslash. -/
def readEscape : List Char → Option (Char × List Char)
  | 'b' :: rest => some (Char.ofNat 8, rest)
  | 't' :: rest => some ('\t', rest)
  | 'n' :: rest => some ('\n', rest)
  | 'f' :: rest => some (Char.ofNat 12, rest)
  | 'r' :: rest => some ('\r', rest)
  | '"' :: rest => some ('"', rest)
  | '\\' :: rest => some ('\\', rest)
  | 'u' :: rest => readScalar 4 rest
  | 'U' :: rest => readScalar 8 rest
  | _ => none

/-- A character of a basic string. -/
def readChar : List Char → Option (Char × List Char)
  | '\\' :: rest => readEscape rest
  | c :: rest => if isBasicUnescaped c then some (c, rest) else none
  | [] => none

/-- The rest of a basic string and what stands behind it. Every step reads something. -/
def readBasic : ℕ → List Char → Option (List Char × List Char)
  | 0, _ => none
  | fuel + 1, text =>
      if text.head? = some '"' then some ([], text.drop 1)
      else do
        let (c, rest) ← readChar text
        let (value, rest) ← readBasic fuel rest
        return (c :: value, rest)

/-! ### Lines -/

def isBlank (c : Char) : Bool := c == ' ' || c == '\t'

def isBareKeyChar (c : Char) : Bool := isAsciiAlphanumeric c || c == '_' || c == '-'

/-- Only blanks and a comment perhaps. -/
def isEmptyLine (text : List Char) : Bool :=
  match text.dropWhile isBlank with
  | [] => true
  | c :: rest => c == '#' && rest.all isNonEol

def readValue (text : List Char) : Option (Value × List Char) :=
  if text.head? = some '"' then
    (readBasic text.length (text.drop 1)).map fun read => (.string read.1, read.2)
  else if "true".toList <+: text then some (.boolean true, text.drop 4)
  else if "false".toList <+: text then some (.boolean false, text.drop 5)
  else none

/-- A line with a key and a value. -/
def readAssignment (line : List Char) : Option (List Char × Value) := do
  let line := line.dropWhile isBlank
  let key := line.takeWhile isBareKeyChar
  let rest := (line.dropWhile isBareKeyChar).dropWhile isBlank
  if key = [] ∨ rest.head? ≠ some '=' then none
  else
    let (value, rest) ← readValue ((rest.drop 1).dropWhile isBlank)
    if isEmptyLine rest then some (key, value) else none

/-- The table of a document. No key is given twice. -/
def readLines : List (List Char) → Option Table
  | [] => some []
  | line :: lines =>
      if isEmptyLine line then readLines lines
      else do
        let (key, value) ← readAssignment line
        let table ← readLines lines
        if (table.map Prod.fst).contains key then none else some ((key, value) :: table)

/-! ### Simple documents -/

/-- The text of a value that begins no string of several lines. -/
def IsSimpleValue (text : List Char) : Prop :=
  text = "true".toList ∨ text = "false".toList ∨ text.head? = some '"' ∧ ¬ ['"', '"', '"'] <+: text

inductive IsSimpleLine : List Char → Prop
  | comment {text : List Char} (h : ∀ c ∈ text, isNonEol c = true) : IsSimpleLine ('#' :: text)
  | assignment {key value : List Char} (hne : key ≠ []) (hkey : ∀ c ∈ key, isBareKeyChar c = true)
      (hvalue : IsSimpleValue value) (hfree : ∀ c ∈ value, c ≠ '\n' ∧ c ≠ '\r') :
      IsSimpleLine (key ++ (" = ".toList ++ value))

/-- The text of some lines. -/
def document (lines : List (List Char)) : List Char := lines.flatMap (· ++ ['\n'])

/-- A parser reads simple documents as TOML 1.0 says. -/
def ReadsSimple (parse : List Char → Option Table) : Prop :=
  ∀ lines : List (List Char), (∀ line ∈ lines, IsSimpleLine line) → parse (document lines) = readLines lines

/-- The reader of simple documents. -/
def readDocument (text : List Char) : Option Table := readLines (text.splitOn '\n').dropLast

theorem newline_not_mem_of_isSimpleLine {line : List Char} (h : IsSimpleLine line) : '\n' ∉ line := by
  cases h with
  | comment h =>
    rw [List.mem_cons]
    rintro (h' | hmem)
    · exact absurd h' (by decide)
    · exact absurd (h _ hmem) (by decide)
  | assignment hne hkey hvalue hfree =>
    rw [List.mem_append, List.mem_append]
    rintro (hmem | hmem | hmem)
    · exact absurd (hkey _ hmem) (by decide)
    · exact absurd hmem (by decide)
    · exact (hfree _ hmem).1 rfl

theorem readsSimple_readDocument : ReadsSimple readDocument := by
  intro lines hlines
  have hsplit : (document lines).splitOn '\n' = lines ++ [[]] := by
    induction lines with
    | nil => rfl
    | cons line lines ih =>
      rw [List.forall_mem_cons] at hlines
      have hcons : document (line :: lines) = line ++ '\n' :: document lines := by
        rw [document, List.flatMap_cons, List.append_assoc]
        rfl
      rw [hcons, List.splitOn_append_cons_self_of_not_mem (newline_not_mem_of_isSimpleLine hlines.1),
        ih hlines.2]
      rfl
  rw [readDocument, hsplit, List.dropLast_concat]

end Kyth.Toml
