import Mathlib.Tactic

/-!
# Decimal numbers of one width

Numbers with zeros in front, so that all have the same width, have the order of the texts.
-/

namespace Kyth.Decimal

variable {width n m : ℕ} {r s : List Char}

/-- A number with zeros in front, of some width at least. -/
def decimal (width n : ℕ) : List Char :=
  List.replicate (width - (Nat.toDigits 10 n).length) '0' ++ Nat.toDigits 10 n

/-- The last digit of a number of some width. -/
theorem decimal_succ (width n : ℕ) :
    decimal (width + 2) n = decimal (width + 1) (n / 10) ++ [(n % 10).digitChar] := by
  unfold decimal
  by_cases hsmall : n < 10
  · rw [Nat.toDigits_of_lt_base hsmall, Nat.div_eq_of_lt hsmall, Nat.mod_eq_of_lt hsmall, Nat.toDigits_zero,
      List.length_singleton, List.length_singleton, Nat.add_sub_cancel, ← List.replicate_succ']
    rfl
  · rw [Nat.toDigits_of_base_le (by decide) (Nat.le_of_not_lt hsmall), List.length_append,
      List.length_singleton, ← List.append_assoc, Nat.succ_sub_succ]

theorem decimal_one (h : n < 10) : decimal 1 n = [n.digitChar] := by
  rw [decimal, Nat.toDigits_of_lt_base h]
  rfl

theorem digitChar_lt_iff (hn : n < 10) (hm : m < 10) : n.digitChar < m.digitChar ↔ n < m := by
  have hall : ∀ n < 10, ∀ m < 10, Nat.digitChar n < Nat.digitChar m ↔ n < m := by decide
  exact hall n hn m hm

theorem digitChar_inj (hn : n < 10) (hm : m < 10) : n.digitChar = m.digitChar ↔ n = m := by
  have hall : ∀ n < 10, ∀ m < 10, Nat.digitChar n = Nat.digitChar m ↔ n = m := by decide
  exact hall n hn m hm

/-- Texts that begin with numbers of one width are compared by the numbers first. -/
theorem decimal_append_lt_iff (hn : n < 10 ^ (width + 1)) (hm : m < 10 ^ (width + 1)) :
    decimal (width + 1) n ++ r < decimal (width + 1) m ++ s ↔ n < m ∨ n = m ∧ r < s := by
  induction width generalizing n m r s with
  | zero =>
    rw [decimal_one hn, decimal_one hm, List.singleton_append, List.singleton_append, List.cons_lt_cons_iff,
      digitChar_lt_iff hn hm, digitChar_inj hn hm]
  | succ width ih =>
    have hn' : n / 10 < 10 ^ (width + 1) := by omega
    have hm' : m / 10 < 10 ^ (width + 1) := by omega
    have hlast : n % 10 < 10 ∧ m % 10 < 10 := by omega
    rw [decimal_succ, decimal_succ, List.append_assoc, List.append_assoc, ih hn' hm', List.singleton_append,
      List.singleton_append, List.cons_lt_cons_iff, digitChar_lt_iff hlast.1 hlast.2,
      digitChar_inj hlast.1 hlast.2]
    constructor
    · rintro (h | ⟨h, h' | ⟨h', h''⟩⟩)
      · exact .inl (by omega)
      · exact .inl (by omega)
      · exact .inr ⟨by omega, h''⟩
    · rintro (h | ⟨rfl, h⟩)
      · omega
      · exact .inr ⟨rfl, .inr ⟨rfl, h⟩⟩

end Kyth.Decimal
