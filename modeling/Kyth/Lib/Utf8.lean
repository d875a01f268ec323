import Mathlib.Tactic

/-!
# Decoding UTF-8

`scan` reads one character from the front of a byte sequence, or says why it cannot: the bytes are
invalid, and how many of them, or they end inside a character. On top of it are the two standard
decoders, `fromUtf8` that stops at the first problem and `fromUtf8Lossy` that replaces every
invalid stretch by `U+FFFD`, and `lossyPrefix`, which keeps an incomplete character at the end for
later. `lossyPrefix_append` says that the last one may be fed in pieces.
-/

namespace Kyth.Utf8

/-- The character that stands for an invalid stretch. -/
def replacement : Char := Char.ofNat 0xFFFD

/-- The bits of a first byte and the ranges of the bytes that must follow it. -/
def lead (b : UInt8) : Option (ℕ × List (ℕ × ℕ)) :=
  let n := b.toNat
  if n ≤ 0x7F then some (n, [])
  else if 0xC2 ≤ n ∧ n ≤ 0xDF then some (n - 0xC0, [(0x80, 0xBF)])
  else if n = 0xE0 then some (0, [(0xA0, 0xBF), (0x80, 0xBF)])
  else if n = 0xED then some (0xD, [(0x80, 0x9F), (0x80, 0xBF)])
  else if 0xE1 ≤ n ∧ n ≤ 0xEF then some (n - 0xE0, [(0x80, 0xBF), (0x80, 0xBF)])
  else if n = 0xF0 then some (0, [(0x90, 0xBF), (0x80, 0xBF), (0x80, 0xBF)])
  else if 0xF1 ≤ n ∧ n ≤ 0xF3 then some (n - 0xF0, [(0x80, 0xBF), (0x80, 0xBF), (0x80, 0xBF)])
  else if n = 0xF4 then some (4, [(0x80, 0x8F), (0x80, 0xBF), (0x80, 0xBF)])
  else none

/-- The front of a byte sequence. -/
inductive Scan
  /-- Nothing is left. -/
  | done
  /-- A character and the bytes after it. -/
  | char (c : Char) (rest : List UInt8)
  /-- Invalid bytes, as many as a character could have begun with, and the bytes after them. -/
  | invalid (length : ℕ) (rest : List UInt8)
  /-- The bytes end inside a character. -/
  | incomplete
  deriving DecidableEq, Repr

/-- The bytes after a first byte, where `bits` and `length` are what has been read so far. -/
def scanTail (bits length : ℕ) : List (ℕ × ℕ) → List UInt8 → Scan
  | [], rest => .char (Char.ofNat bits) rest
  | _ :: _, [] => .incomplete
  | (low, high) :: ranges, b :: rest =>
      if low ≤ b.toNat ∧ b.toNat ≤ high then
        scanTail (64 * bits + b.toNat % 64) (length + 1) ranges rest
      else .invalid length (b :: rest)

/-- The first character of a byte sequence. -/
def scan : List UInt8 → Scan
  | [] => .done
  | b :: rest =>
      match lead b with
      | some (bits, ranges) => scanTail bits 1 ranges rest
      | none => .invalid 1 rest

/-! ### More bytes behind the first character -/

theorem scanTail_char {bits length : ℕ} {ranges : List (ℕ × ℕ)} {bytes rest : List UInt8}
    {c : Char} (h : scanTail bits length ranges bytes = .char c rest) :
    rest.length ≤ bytes.length ∧
      ∀ more, scanTail bits length ranges (bytes ++ more) = .char c (rest ++ more) := by
  induction ranges generalizing bits length bytes with
  | nil =>
    cases h
    exact ⟨le_rfl, fun more => rfl⟩
  | cons range ranges ih =>
    cases bytes with
    | nil => simp [scanTail] at h
    | cons b bytes =>
      rw [scanTail] at h
      split_ifs at h with hrange
      obtain ⟨hlen, happend⟩ := ih h
      refine ⟨hlen.trans (Nat.le_succ _), fun more => ?_⟩
      rw [List.cons_append, scanTail, if_pos hrange, happend]

theorem scanTail_invalid {bits length n : ℕ} {ranges : List (ℕ × ℕ)} {bytes rest : List UInt8}
    (h : scanTail bits length ranges bytes = .invalid n rest) :
    length ≤ n ∧ bytes.drop (n - length) = rest ∧ rest.length ≤ bytes.length ∧
      ∀ more, scanTail bits length ranges (bytes ++ more) = .invalid n (rest ++ more) := by
  induction ranges generalizing bits length bytes with
  | nil => cases h
  | cons range ranges ih =>
    cases bytes with
    | nil => simp [scanTail] at h
    | cons b bytes =>
      rw [scanTail] at h
      split_ifs at h with hrange
      · obtain ⟨hle, hdrop, hlen, happend⟩ := ih h
        have hsub : n - length = n - (length + 1) + 1 := by omega
        refine ⟨by omega, by rw [hsub, List.drop_succ_cons, hdrop], hlen.trans (Nat.le_succ _),
          fun more => ?_⟩
        rw [List.cons_append, scanTail, if_pos hrange, happend]
      · cases h
        refine ⟨le_rfl, by simp, le_rfl, fun more => ?_⟩
        rw [List.cons_append, scanTail, if_neg hrange]

theorem scan_char {bytes rest : List UInt8} {c : Char} (h : scan bytes = .char c rest) :
    rest.length < bytes.length ∧ ∀ more, scan (bytes ++ more) = .char c (rest ++ more) := by
  cases bytes with
  | nil => cases h
  | cons b bytes =>
    rw [scan] at h
    cases hlead : lead b with
    | none => simp [hlead] at h
    | some found =>
      rw [hlead] at h
      obtain ⟨hlen, happend⟩ := scanTail_char h
      refine ⟨Nat.lt_succ_of_le hlen, fun more => ?_⟩
      rw [List.cons_append, scan, hlead]
      exact happend more

theorem scan_invalid {bytes rest : List UInt8} {n : ℕ} (h : scan bytes = .invalid n rest) :
    rest.length < bytes.length ∧ bytes.drop n = rest ∧
      ∀ more, scan (bytes ++ more) = .invalid n (rest ++ more) := by
  cases bytes with
  | nil => cases h
  | cons b bytes =>
    rw [scan] at h
    cases hlead : lead b with
    | none =>
      rw [hlead] at h
      cases h
      refine ⟨Nat.lt_succ_self _, rfl, fun more => ?_⟩
      rw [List.cons_append, scan, hlead]
    | some found =>
      rw [hlead] at h
      obtain ⟨hle, hdrop, hlen, happend⟩ := scanTail_invalid h
      have hsub : n = n - 1 + 1 := by omega
      refine ⟨Nat.lt_succ_of_le hlen, by rw [hsub, List.drop_succ_cons, hdrop], fun more => ?_⟩
      rw [List.cons_append, scan, hlead]
      exact happend more

/-! ### Decoders -/

/-- The standard decoder: the text of the longest valid stretch and, unless that is everything, the
bytes behind it with the number of invalid ones. No number means that the bytes end inside a
character. -/
def fromUtf8 (bytes : List UInt8) : List Char × Option (List UInt8 × Option ℕ) :=
  match h : scan bytes with
  | .done => ([], none)
  | .char c rest =>
      have := (scan_char h).1
      let found := fromUtf8 rest
      (c :: found.1, found.2)
  | .invalid n _ => ([], some (bytes, some n))
  | .incomplete => ([], some (bytes, none))
termination_by bytes.length

/-- The lossy decoder. -/
def fromUtf8Lossy (bytes : List UInt8) : List Char :=
  match h : scan bytes with
  | .done => []
  | .char c rest =>
      have := (scan_char h).1
      c :: fromUtf8Lossy rest
  | .invalid _ rest =>
      have := (scan_invalid h).1
      replacement :: fromUtf8Lossy rest
  | .incomplete => [replacement]
termination_by bytes.length

/-- The lossy decoder that keeps an incomplete character at the end as bytes. -/
def lossyPrefix (bytes : List UInt8) : List Char × List UInt8 :=
  match h : scan bytes with
  | .done => ([], [])
  | .char c rest =>
      have := (scan_char h).1
      let found := lossyPrefix rest
      (c :: found.1, found.2)
  | .invalid _ rest =>
      have := (scan_invalid h).1
      let found := lossyPrefix rest
      (replacement :: found.1, found.2)
  | .incomplete => ([], bytes)
termination_by bytes.length

section Equations

variable {bytes rest : List UInt8} {c : Char} {n : ℕ}

theorem fromUtf8_eq_match (bytes : List UInt8) : fromUtf8 bytes =
    match scan bytes with
    | .done => ([], none)
    | .char c rest => (c :: (fromUtf8 rest).1, (fromUtf8 rest).2)
    | .invalid n _ => ([], some (bytes, some n))
    | .incomplete => ([], some (bytes, none)) := by
  rw [fromUtf8]
  split <;> simp_all

theorem fromUtf8_of_done (h : scan bytes = .done) : fromUtf8 bytes = ([], none) := by
  rw [fromUtf8_eq_match, h]

theorem fromUtf8_of_char (h : scan bytes = .char c rest) :
    fromUtf8 bytes = (c :: (fromUtf8 rest).1, (fromUtf8 rest).2) := by
  rw [fromUtf8_eq_match, h]

theorem fromUtf8_of_invalid (h : scan bytes = .invalid n rest) :
    fromUtf8 bytes = ([], some (bytes, some n)) := by
  rw [fromUtf8_eq_match, h]

theorem fromUtf8_of_incomplete (h : scan bytes = .incomplete) :
    fromUtf8 bytes = ([], some (bytes, none)) := by
  rw [fromUtf8_eq_match, h]

theorem fromUtf8Lossy_eq_match (bytes : List UInt8) : fromUtf8Lossy bytes =
    match scan bytes with
    | .done => []
    | .char c rest => c :: fromUtf8Lossy rest
    | .invalid _ rest => replacement :: fromUtf8Lossy rest
    | .incomplete => [replacement] := by
  rw [fromUtf8Lossy]
  split <;> simp_all

theorem fromUtf8Lossy_of_done (h : scan bytes = .done) : fromUtf8Lossy bytes = [] := by
  rw [fromUtf8Lossy_eq_match, h]

theorem fromUtf8Lossy_of_char (h : scan bytes = .char c rest) :
    fromUtf8Lossy bytes = c :: fromUtf8Lossy rest := by
  rw [fromUtf8Lossy_eq_match, h]

theorem fromUtf8Lossy_of_invalid (h : scan bytes = .invalid n rest) :
    fromUtf8Lossy bytes = replacement :: fromUtf8Lossy rest := by
  rw [fromUtf8Lossy_eq_match, h]

theorem fromUtf8Lossy_of_incomplete (h : scan bytes = .incomplete) :
    fromUtf8Lossy bytes = [replacement] := by
  rw [fromUtf8Lossy_eq_match, h]

theorem lossyPrefix_eq_match (bytes : List UInt8) : lossyPrefix bytes =
    match scan bytes with
    | .done => ([], [])
    | .char c rest => (c :: (lossyPrefix rest).1, (lossyPrefix rest).2)
    | .invalid _ rest => (replacement :: (lossyPrefix rest).1, (lossyPrefix rest).2)
    | .incomplete => ([], bytes) := by
  rw [lossyPrefix]
  split <;> simp_all

theorem lossyPrefix_of_done (h : scan bytes = .done) : lossyPrefix bytes = ([], []) := by
  rw [lossyPrefix_eq_match, h]

theorem lossyPrefix_of_char (h : scan bytes = .char c rest) :
    lossyPrefix bytes = (c :: (lossyPrefix rest).1, (lossyPrefix rest).2) := by
  rw [lossyPrefix_eq_match, h]

theorem lossyPrefix_of_invalid (h : scan bytes = .invalid n rest) :
    lossyPrefix bytes = (replacement :: (lossyPrefix rest).1, (lossyPrefix rest).2) := by
  rw [lossyPrefix_eq_match, h]

theorem lossyPrefix_of_incomplete (h : scan bytes = .incomplete) :
    lossyPrefix bytes = ([], bytes) := by
  rw [lossyPrefix_eq_match, h]

end Equations

theorem scanTail_ne_done {bits length : ℕ} {ranges : List (ℕ × ℕ)} {bytes : List UInt8} :
    scanTail bits length ranges bytes ≠ .done := by
  induction ranges generalizing bits length bytes with
  | nil => simp [scanTail]
  | cons range ranges ih =>
    cases bytes with
    | nil => simp [scanTail]
    | cons b bytes =>
      rw [scanTail]
      split_ifs
      · exact ih
      · simp

/-- Only the empty sequence has nothing to scan. -/
theorem eq_nil_of_scan_done {bytes : List UInt8} (h : scan bytes = .done) : bytes = [] := by
  cases bytes with
  | nil => rfl
  | cons b bytes =>
    rw [scan] at h
    cases hlead : lead b with
    | none => simp [hlead] at h
    | some found =>
      rw [hlead] at h
      exact absurd h scanTail_ne_done

/-- Decoding in two pieces: what the first piece leaves incomplete goes before the second. -/
theorem lossyPrefix_append (a b : List UInt8) :
    lossyPrefix (a ++ b) = ((lossyPrefix a).1 ++ (lossyPrefix ((lossyPrefix a).2 ++ b)).1,
      (lossyPrefix ((lossyPrefix a).2 ++ b)).2) := by
  induction hlen : a.length using Nat.strong_induction_on generalizing a with
  | _ len ih =>
    cases hscan : scan a with
    | done =>
      rw [lossyPrefix_of_done hscan, eq_nil_of_scan_done hscan]
      rfl
    | char c rest =>
      obtain ⟨hlt, happend⟩ := scan_char hscan
      rw [lossyPrefix_of_char (happend b), lossyPrefix_of_char hscan,
        ih rest.length (hlen ▸ hlt) rest rfl]
      rfl
    | invalid n rest =>
      obtain ⟨hlt, -, happend⟩ := scan_invalid hscan
      rw [lossyPrefix_of_invalid (happend b), lossyPrefix_of_invalid hscan,
        ih rest.length (hlen ▸ hlt) rest rfl]
      rfl
    | incomplete =>
      rw [lossyPrefix_of_incomplete hscan]
      rfl

/-- What is kept is nothing, or the beginning of one character. -/
theorem lossyPrefix_kept (bytes : List UInt8) :
    (lossyPrefix bytes).2 = [] ∨ scan (lossyPrefix bytes).2 = .incomplete := by
  induction hlen : bytes.length using Nat.strong_induction_on generalizing bytes with
  | _ len ih =>
    cases hscan : scan bytes with
    | done =>
      rw [lossyPrefix_of_done hscan]
      exact .inl rfl
    | char c rest =>
      rw [lossyPrefix_of_char hscan]
      exact ih rest.length (hlen ▸ (scan_char hscan).1) rest rfl
    | invalid n rest =>
      rw [lossyPrefix_of_invalid hscan]
      exact ih rest.length (hlen ▸ (scan_invalid hscan).1) rest rfl
    | incomplete =>
      rw [lossyPrefix_of_incomplete hscan]
      exact .inr hscan


/-- The lossy decoder replaces what `lossyPrefix` keeps. -/
theorem fromUtf8Lossy_eq (bytes : List UInt8) :
    fromUtf8Lossy bytes = (lossyPrefix bytes).1 ++ fromUtf8Lossy (lossyPrefix bytes).2 := by
  induction hlen : bytes.length using Nat.strong_induction_on generalizing bytes with
  | _ len ih =>
    cases hscan : scan bytes with
    | done =>
      rw [eq_nil_of_scan_done hscan, lossyPrefix_of_done rfl]
      rfl
    | char c rest =>
      have hrest := ih rest.length (hlen ▸ (scan_char hscan).1) rest rfl
      rw [lossyPrefix_of_char hscan, List.cons_append, ← hrest, fromUtf8Lossy_of_char hscan]
    | invalid n rest =>
      have hrest := ih rest.length (hlen ▸ (scan_invalid hscan).1) rest rfl
      rw [lossyPrefix_of_invalid hscan, List.cons_append, ← hrest, fromUtf8Lossy_of_invalid hscan]
    | incomplete =>
      rw [lossyPrefix_of_incomplete hscan]
      rfl

/-- The bytes behind an invalid stretch are fewer than all. -/
theorem fromUtf8_invalid_length {bytes rest : List UInt8} {text : List Char} {n : ℕ}
    (h : fromUtf8 bytes = (text, some (rest, some n))) : rest.length - n < bytes.length := by
  induction hlen : bytes.length using Nat.strong_induction_on generalizing bytes text with
  | _ len ih =>
    cases hscan : scan bytes with
    | done => simp [fromUtf8_of_done hscan] at h
    | char c rest' =>
      have hlt := (scan_char hscan).1
      rw [fromUtf8_of_char hscan, Prod.mk.injEq] at h
      exact (ih rest'.length (hlen ▸ hlt) (Prod.ext rfl h.2) rfl).trans (hlen ▸ hlt)
    | invalid n' rest' =>
      obtain ⟨hlt, hdrop, -⟩ := scan_invalid hscan
      rw [fromUtf8_of_invalid hscan] at h
      cases h
      rw [← List.length_drop, hdrop, ← hlen]
      exact hlt
    | incomplete => simp [fromUtf8_of_incomplete hscan] at h

/-- The lossy decoder goes on behind the stretch that the standard one stops at. -/
theorem lossyPrefix_eq_fromUtf8 (bytes : List UInt8) :
    lossyPrefix bytes =
      match fromUtf8 bytes with
      | (text, none) => (text, [])
      | (text, some (rest, none)) => (text, rest)
      | (text, some (rest, some n)) =>
          (text ++ replacement :: (lossyPrefix (rest.drop n)).1, (lossyPrefix (rest.drop n)).2) := by
  induction hlen : bytes.length using Nat.strong_induction_on generalizing bytes with
  | _ len ih =>
    cases hscan : scan bytes with
    | done => rw [lossyPrefix_of_done hscan, fromUtf8_of_done hscan]
    | char c rest =>
      rw [lossyPrefix_of_char hscan, ih rest.length (hlen ▸ (scan_char hscan).1) rest rfl,
        fromUtf8_of_char hscan]
      rcases fromUtf8 rest with ⟨text, _ | ⟨rest', _ | n⟩⟩ <;> rfl
    | invalid n rest =>
      rw [lossyPrefix_of_invalid hscan, fromUtf8_of_invalid hscan]
      simp only [(scan_invalid hscan).2.1, List.nil_append]
    | incomplete => rw [lossyPrefix_of_incomplete hscan, fromUtf8_of_incomplete hscan]

/-! ### ASCII characters -/

theorem eq_toNat_of_ofNat_eq {v : ℕ} {c : Char} (h : Char.ofNat v = c) (hc : c.toNat ≠ 0) : v = c.toNat := by
  rw [← h] at hc ⊢
  by_cases hv : v.isValidChar
  · rw [Char.ofNat, dif_pos hv]
    rfl
  · rw [Char.ofNat, dif_neg hv] at hc
    exact absurd rfl hc

/-- A character of more than one byte has a number from 128 on. -/
theorem scanTail_large {bits length : ℕ} {ranges : List (ℕ × ℕ)} {bytes rest : List UInt8} {c : Char}
    (hbits : 128 ≤ bits ∨ 2 ≤ bits ∧ ranges ≠ [] ∨ 1 ≤ bits ∧ 2 ≤ ranges.length)
    (h : scanTail bits length ranges bytes = .char c rest) (hc : c.toNat ≠ 0) : 128 ≤ c.toNat := by
  induction ranges generalizing bits length bytes with
  | nil =>
    rw [scanTail, Scan.char.injEq] at h
    have hvalue := eq_toNat_of_ofNat_eq h.1 hc
    simp at hbits
    omega
  | cons range ranges ih =>
    cases bytes with
    | nil => simp [scanTail] at h
    | cons b bytes =>
      rw [scanTail] at h
      split_ifs at h
      refine ih ?_ h
      cases ranges with
      | nil =>
        simp only [List.length_cons, List.length_nil] at hbits
        left
        omega
      | cons range' ranges =>
        right
        left
        exact ⟨by simp only [List.length_cons] at hbits; omega, by simp⟩

theorem scanTail_suffix {bits length : ℕ} {ranges : List (ℕ × ℕ)} {bytes rest : List UInt8} {c : Char}
    (h : scanTail bits length ranges bytes = .char c rest) : rest <:+ bytes := by
  induction ranges generalizing bits length bytes with
  | nil =>
    rw [scanTail, Scan.char.injEq] at h
    exact h.2 ▸ List.suffix_refl _
  | cons range ranges ih =>
    cases bytes with
    | nil => simp [scanTail] at h
    | cons b bytes =>
      rw [scanTail] at h
      split_ifs at h
      exact (ih h).trans (List.suffix_cons b bytes)

/-- An ASCII character is read from its own byte. -/
theorem scan_ascii {bytes rest : List UInt8} {c : Char} (h : scan bytes = .char c rest)
    (hpos : c.toNat ≠ 0) (hlt : c.toNat < 128) : ∃ b ∈ bytes, b.toNat = c.toNat := by
  cases bytes with
  | nil => cases h
  | cons b bytes =>
    refine ⟨b, by simp, ?_⟩
    rw [scan] at h
    unfold lead at h
    simp only at h
    -- after a first byte without bits of its own the second one has some
    have hzero {low : ℕ} (hlow : 130 ≤ low) (hhigh : low ≤ 191) {range : ℕ × ℕ} {ranges : List (ℕ × ℕ)}
        (h : scanTail 0 1 ((low, 0xBF) :: range :: ranges) bytes = .char c rest) : 128 ≤ c.toNat := by
      cases bytes with
      | nil => simp [scanTail] at h
      | cons b' bytes =>
        rw [scanTail] at h
        split_ifs at h with hrange
        refine scanTail_large (.inr (.inl ⟨?_, by simp⟩)) h hpos
        omega
    split_ifs at h with h1 h2 h3 h4 h5 h6 h7 h8
    · have hself : Scan.char (Char.ofNat b.toNat) bytes = .char c rest := h
      exact eq_toNat_of_ofNat_eq (Scan.char.inj hself).1 hpos
    · exact absurd (scanTail_large (.inr (.inl ⟨by omega, by simp⟩)) h hpos) (by omega)
    · exact absurd (hzero (by norm_num) (by norm_num) h) (by omega)
    · exact absurd (scanTail_large (.inr (.inl ⟨by omega, by simp⟩)) h hpos) (by omega)
    · exact absurd (scanTail_large (.inr (.inr ⟨by omega, by simp⟩)) h hpos) (by omega)
    · exact absurd (hzero (by norm_num) (by norm_num) h) (by omega)
    · exact absurd (scanTail_large (.inr (.inr ⟨by omega, by simp⟩)) h hpos) (by omega)
    · exact absurd (scanTail_large (.inr (.inl ⟨by omega, by simp⟩)) h hpos) (by omega)

theorem scan_suffix {bytes rest : List UInt8} {c : Char} (h : scan bytes = .char c rest) :
    rest <:+ bytes := by
  cases bytes with
  | nil => cases h
  | cons b bytes =>
    rw [scan] at h
    cases hlead : lead b with
    | none => simp [hlead] at h
    | some found =>
      rw [hlead] at h
      exact (scanTail_suffix h).trans (List.suffix_cons b bytes)

/-- An ASCII character of a lossily decoded text stands in the bytes. -/
theorem mem_of_mem_fromUtf8Lossy {bytes : List UInt8} {c : Char} (h : c ∈ fromUtf8Lossy bytes)
    (hpos : c.toNat ≠ 0) (hlt : c.toNat < 128) : ∃ b ∈ bytes, b.toNat = c.toNat := by
  have hreplacement : c ≠ replacement := by
    rintro rfl
    exact absurd hlt (by decide)
  induction hlen : bytes.length using Nat.strong_induction_on generalizing bytes with
  | _ len ih =>
    cases hscan : scan bytes with
    | done => simp [fromUtf8Lossy_of_done hscan] at h
    | char c' rest =>
      rw [fromUtf8Lossy_of_char hscan, List.mem_cons] at h
      obtain rfl | h := h
      · exact scan_ascii hscan hpos hlt
      · obtain ⟨b, hb, heq⟩ := ih rest.length (hlen ▸ (scan_char hscan).1) h rfl
        exact ⟨b, (scan_suffix hscan).mem hb, heq⟩
    | invalid n rest =>
      rw [fromUtf8Lossy_of_invalid hscan, List.mem_cons] at h
      obtain ⟨b, hb, heq⟩ := ih rest.length (hlen ▸ (scan_invalid hscan).1) (h.resolve_left hreplacement) rfl
      rw [← (scan_invalid hscan).2.1] at hb
      exact ⟨b, List.mem_of_mem_drop hb, heq⟩
    | incomplete =>
      have hlossy : fromUtf8Lossy bytes = [replacement] := by
        rw [fromUtf8Lossy]
        split <;> simp_all
      rw [hlossy, List.mem_singleton] at h
      exact absurd h hreplacement

end Kyth.Utf8
