import Kyth.Lib.IpAddr
import Kyth.Lib.SplitOnce

/-!
# Authorities and paths

What stands behind the scheme of a URL, split by the generic grammar: the authority ends at the first
slash, question mark or number sign, and the path at the first question mark or number sign behind it.
`HostPort` says that an authority is a host with an optional port. There is one way to read it so:
`hostPort_literal_iff` for a host in brackets, `hostPort_name_iff` for any other.
-/

namespace Kyth.Uri

open Str IpAddr SplitOnce

/-- The authority, from what stands behind the scheme. -/
def authority (rest : List Char) : List Char := rest.takeWhile fun c => c ≠ '/' && c ≠ '?' && c ≠ '#'

/-- The path, from what stands behind the scheme. -/
def path (rest : List Char) : List Char :=
  (rest.dropWhile fun c => c ≠ '/' && c ≠ '?' && c ≠ '#').takeWhile fun c => c ≠ '?' && c ≠ '#'

/-! ### Hosts -/

def isUnreserved (c : Char) : Bool := isAsciiAlphanumeric c || c == '-' || c == '.' || c == '_' || c == '~'

def isSubDelim (c : Char) : Bool := "!$&'()*+,;=".toList.contains c

/-- A registered name, in which other characters are written as percent triples. -/
def isRegName : List Char → Bool
  | '%' :: a :: b :: rest => isAsciiHexdigit a && isAsciiHexdigit b && isRegName rest
  | c :: rest => (isUnreserved c || isSubDelim c) && isRegName rest
  | [] => true

/-- An address of a later version. -/
def isIpvFuture : List Char → Bool
  | c :: rest => (c == 'v' || c == 'V') && (splitOnce '.' rest).any fun parts =>
      parts.1 ≠ [] && parts.1.all isAsciiHexdigit && parts.2 ≠ [] &&
        parts.2.all fun c => isUnreserved c || isSubDelim c || c == ':'
  | [] => false

/-- What may stand in brackets. -/
def isIpLiteral (inner : List Char) : Bool := isIpv6 inner || isIpvFuture inner

inductive IsHost : List Char → Prop
  | literal {inner : List Char} (h : isIpLiteral inner = true) : IsHost ('[' :: inner ++ [']'])
  | name {text : List Char} (h : isRegName text = true) (hne : text ≠ []) : IsHost text

/-- The port behind a host, or the standard one. -/
inductive PortBehind (standard : ℕ) : List Char → ℕ → Prop
  | none : PortBehind standard [] standard
  | port {digits : List Char} {n : ℕ} (h : parseDigits digits = some n) :
      PortBehind standard (':' :: digits) n

/-- The authority is a host with an optional port. -/
def HostPort (standard : ℕ) (text host : List Char) (port : ℕ) : Prop :=
  ∃ back, text = host ++ back ∧ IsHost host ∧ PortBehind standard back port

variable {host inner name back text : List Char} {c : Char} {port standard : ℕ}

theorem isRegName_cons (h : c ≠ '%') (rest : List Char) :
    isRegName (c :: rest) = ((isUnreserved c || isSubDelim c) && isRegName rest) := by
  rw [isRegName]
  rintro a b rest' rfl
  exact absurd rfl h

theorem chars_of_isRegName (h : isRegName name = true) :
    ∀ c ∈ name, c = '%' ∨ isAsciiHexdigit c = true ∨ isUnreserved c = true ∨ isSubDelim c = true := by
  fun_induction isRegName name with
  | case1 a b rest ih =>
    rw [Bool.and_eq_true, Bool.and_eq_true] at h
    simp only [List.forall_mem_cons]
    exact ⟨.inl trivial, .inr (.inl h.1.1), .inr (.inl h.1.2), ih h.2⟩
  | case2 c rest hpercent ih =>
    rw [Bool.and_eq_true, Bool.or_eq_true] at h
    exact List.forall_mem_cons.2 ⟨.inr (.inr h.1), ih h.2⟩
  | case3 => exact List.forall_mem_nil _

theorem not_mem_of_isRegName (h : isRegName name = true) (hpercent : c ≠ '%')
    (hc : (isAsciiHexdigit c || isUnreserved c || isSubDelim c) = false) : c ∉ name := by
  intro hmem
  rw [Bool.or_eq_false_iff, Bool.or_eq_false_iff] at hc
  rcases chars_of_isRegName h c hmem with h | h | h | h
  · exact hpercent h
  · exact absurd h (by simp [hc.1.1])
  · exact absurd h (by simp [hc.1.2])
  · exact absurd h (by simp [hc.2])

theorem bracket_not_mem_of_isIpLiteral (h : isIpLiteral inner = true) : ']' ∉ inner := by
  rcases Bool.or_eq_true_iff.1 h with h | h
  · intro hmem
    exact absurd ((shape_of_isIpv6 h).chars _ hmem) (by decide)
  · cases inner with
    | nil => cases h
    | cons c rest =>
      rw [isIpvFuture, Bool.and_eq_true, Bool.or_eq_true, beq_iff_eq, beq_iff_eq] at h
      obtain ⟨hc, hrest⟩ := h
      obtain ⟨⟨version, address⟩, hsplit, hparts⟩ := (Option.any_eq_true _ _).1 hrest
      obtain ⟨rfl, -⟩ := splitOnce_eq_some.1 hsplit
      simp only [Bool.and_eq_true, List.all_eq_true] at hparts
      obtain ⟨⟨⟨-, hversion⟩, -⟩, haddress⟩ := hparts
      rw [List.mem_cons, List.mem_append, List.mem_cons]
      rintro (rfl | hmem | hmem | hmem)
      · exact absurd hc (by decide)
      · exact absurd (hversion _ hmem) (by decide)
      · exact absurd hmem (by decide)
      · exact absurd (haddress _ hmem) (by decide)

/-! ### Reading an authority -/

theorem PortBehind.head (h : PortBehind standard back port) : ∀ c ∈ back.head?, c = ':' := by
  cases h with
  | none =>
    intro c hc
    cases hc
  | port h =>
    rintro c ⟨⟩
    rfl

/-- A host in brackets ends at the first closing one. -/
theorem hostPort_literal_iff (hinner : ']' ∉ inner) :
    HostPort standard ('[' :: inner ++ ']' :: back) host port ↔
      isIpLiteral inner = true ∧ host = '[' :: inner ++ [']'] ∧ PortBehind standard back port := by
  constructor
  · rintro ⟨back', htext, hhost, hport⟩
    cases hhost with
    | @literal inner' h =>
      rw [List.cons_append, List.cons_append, List.cons_append, List.cons.injEq, List.append_assoc,
        List.singleton_append, append_cons_inj hinner (bracket_not_mem_of_isIpLiteral h)] at htext
      obtain ⟨-, rfl, rfl⟩ := htext
      exact ⟨h, rfl, hport⟩
    | name h hne =>
      obtain ⟨c, rest, rfl⟩ := List.exists_cons_of_ne_nil hne
      have hbracket : '[' ∉ c :: rest := not_mem_of_isRegName h (by decide) (by decide)
      rw [List.cons_append, List.cons_append, List.cons.injEq] at htext
      exact absurd (List.mem_cons.2 (.inl htext.1)) hbracket
  · rintro ⟨h, rfl, hport⟩
    exact ⟨back, by simp, .literal h, hport⟩

/-- Any other host ends at the first colon. -/
theorem hostPort_name_iff (hbracket : text.head? ≠ some '[') :
    HostPort standard text host port ↔ isRegName host = true ∧ host ≠ [] ∧
      host = text.takeWhile (· ≠ ':') ∧ PortBehind standard (text.dropWhile (· ≠ ':')) port := by
  constructor
  · rintro ⟨back, rfl, hhost, hport⟩
    cases hhost with
    | literal h => exact absurd rfl hbracket
    | name h hne =>
      have hcolon : ':' ∉ host := not_mem_of_isRegName h (by decide) (by decide)
      have hall : ∀ c ∈ host, decide (c ≠ ':') = true := by
        intro c hc
        rw [decide_eq_true_eq]
        rintro rfl
        exact hcolon hc
      have hback : back.takeWhile (· ≠ ':') = [] ∧ back.dropWhile (· ≠ ':') = back := by
        cases back with
        | nil => exact ⟨rfl, rfl⟩
        | cons c back =>
          obtain rfl := hport.head c rfl
          exact ⟨List.takeWhile_cons_of_neg (by simp), List.dropWhile_cons_of_neg (by simp)⟩
      rw [List.takeWhile_append_of_pos hall, List.dropWhile_append_of_pos hall, hback.1, hback.2,
        List.append_nil]
      exact ⟨h, hne, rfl, hport⟩
  · rintro ⟨h, hne, rfl, hport⟩
    exact ⟨_, (List.takeWhile_append_dropWhile ..).symm, .name h hne, hport⟩

end Kyth.Uri
