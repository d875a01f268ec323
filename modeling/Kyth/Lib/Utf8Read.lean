import Kyth.Lib.Utf8
import Kyth.Lib.Utf8Text

/-!
# Reading what was encoded

The decoder that replaces invalid stretches gives every text back from its bytes.
-/

namespace Kyth.Utf8

open Utf8Text

/-- A byte that follows the first one adds six bits. -/
theorem scanTail_ofNat {bits length low high n : ℕ} {ranges : List (ℕ × ℕ)}
    (h : low ≤ n % 64 + 128 ∧ n % 64 + 128 ≤ high) (rest : List UInt8) :
    scanTail bits length ((low, high) :: ranges) (UInt8.ofNat (n % 64 + 128) :: rest) =
      scanTail (64 * bits + n % 64) (length + 1) ranges rest := by
  have hbyte : (UInt8.ofNat (n % 64 + 128)).toNat = n % 64 + 128 := by
    rw [UInt8.toNat_ofNat']
    omega
  rw [scanTail, hbyte, if_pos h]
  congr 1
  omega

theorem scan_ofNat {n bits : ℕ} {ranges : List (ℕ × ℕ)}
    (h : lead (UInt8.ofNat n) = some (bits, ranges)) (rest : List UInt8) :
    scan (UInt8.ofNat n :: rest) = scanTail bits 1 ranges rest := by
  rw [scan, h]

theorem lead_ofNat {n : ℕ} (hn : n < 256) : lead (UInt8.ofNat n) =
    if n ≤ 0x7F then some (n, [])
    else if 0xC2 ≤ n ∧ n ≤ 0xDF then some (n - 0xC0, [(0x80, 0xBF)])
    else if n = 0xE0 then some (0, [(0xA0, 0xBF), (0x80, 0xBF)])
    else if n = 0xED then some (0xD, [(0x80, 0x9F), (0x80, 0xBF)])
    else if 0xE1 ≤ n ∧ n ≤ 0xEF then some (n - 0xE0, [(0x80, 0xBF), (0x80, 0xBF)])
    else if n = 0xF0 then some (0, [(0x90, 0xBF), (0x80, 0xBF), (0x80, 0xBF)])
    else if 0xF1 ≤ n ∧ n ≤ 0xF3 then some (n - 0xF0, [(0x80, 0xBF), (0x80, 0xBF), (0x80, 0xBF)])
    else if n = 0xF4 then some (4, [(0x80, 0x8F), (0x80, 0xBF), (0x80, 0xBF)])
    else none := by
  have hbyte : (UInt8.ofNat n).toNat = n := by
    rw [UInt8.toNat_ofNat']
    omega
  rw [lead, hbyte]

/-- The first bytes of the characters of two, three and four bytes. -/
theorem lead_two {v : ℕ} (h : 0x7F < v ∧ v ≤ 0x7FF) :
    lead (UInt8.ofNat (v / 64 % 0x20 + 0xC0)) = some (v / 64, [(0x80, 0xBF)]) := by
  rw [lead_ofNat (by omega), if_neg (by omega), if_pos (by omega),
    show v / 64 % 0x20 + 0xC0 - 0xC0 = v / 64 by omega]

theorem lead_three {v : ℕ} (h : 0x7FF < v ∧ v ≤ 0xFFFF) (hvalid : v < 0xD800 ∨ 0xDFFF < v) :
    ∃ low high, lead (UInt8.ofNat (v / 4096 % 0x10 + 0xE0)) =
        some (v / 4096, [(low, high), (0x80, 0xBF)]) ∧
      low ≤ v / 64 % 64 + 128 ∧ v / 64 % 64 + 128 ≤ high := by
  rw [lead_ofNat (by omega), if_neg (by omega), if_neg (by omega)]
  split_ifs with hfirst hsurrogate hrange
  · exact ⟨0xA0, 0xBF, by rw [show v / 4096 = 0 by omega], by omega, by omega⟩
  · exact ⟨0x80, 0x9F, by rw [show v / 4096 = 13 by omega], by omega, by omega⟩
  · exact ⟨0x80, 0xBF, by rw [show v / 4096 % 0x10 + 0xE0 - 0xE0 = v / 4096 by omega], by omega,
      by omega⟩
  all_goals omega

theorem lead_four {v : ℕ} (h : 0xFFFF < v ∧ v < 0x110000) :
    ∃ low high, lead (UInt8.ofNat (v / 262144 % 0x08 + 0xF0)) =
        some (v / 262144, [(low, high), (0x80, 0xBF), (0x80, 0xBF)]) ∧
      low ≤ v / 4096 % 64 + 128 ∧ v / 4096 % 64 + 128 ≤ high := by
  rw [lead_ofNat (by omega), if_neg (by omega), if_neg (by omega), if_neg (by omega), if_neg (by omega),
    if_neg (by omega)]
  split_ifs with hfirst hrange hlast
  · exact ⟨0x90, 0xBF, by rw [show v / 262144 = 0 by omega], by omega, by omega⟩
  · exact ⟨0x80, 0xBF, by rw [show v / 262144 % 0x08 + 0xF0 - 0xF0 = v / 262144 by omega], by omega,
      by omega⟩
  · exact ⟨0x80, 0x8F, by rw [show v / 262144 = 4 by omega], by omega, by omega⟩
  · omega

/-- Every character is read from the bytes that it is encoded with. -/
theorem scan_utf8EncodeChar (c : Char) (rest : List UInt8) :
    scan (String.utf8EncodeChar c ++ rest) = .char c rest := by
  have hvalid : c.val.toNat < 0xD800 ∨ 0xDFFF < c.val.toNat ∧ c.val.toNat < 0x110000 := c.valid
  have hchar : Char.ofNat c.val.toNat = c := Char.ofNat_toNat c
  unfold String.utf8EncodeChar
  generalize c.val.toNat = v at hvalid hchar
  dsimp only
  split_ifs with hone htwo hthree
  · have hlead : lead (UInt8.ofNat v) = some (v, []) := by
      rw [lead_ofNat (by omega), if_pos hone]
    rw [List.singleton_append, scan_ofNat hlead, scanTail, hchar]
  · rw [List.cons_append, scan_ofNat (lead_two ⟨by omega, htwo⟩), List.singleton_append,
      scanTail_ofNat ⟨by omega, by omega⟩, scanTail, show 64 * (v / 64) + v % 64 = v by omega, hchar]
  · obtain ⟨low, high, hlead, hrange⟩ := lead_three (v := v) ⟨by omega, hthree⟩ (by omega)
    rw [List.cons_append, scan_ofNat hlead, List.cons_append, scanTail_ofNat hrange,
      List.singleton_append, scanTail_ofNat ⟨by omega, by omega⟩, scanTail,
      show 64 * (64 * (v / 4096) + v / 64 % 64) + v % 64 = v by omega, hchar]
  · obtain ⟨low, high, hlead, hrange⟩ := lead_four (v := v) ⟨by omega, by omega⟩
    rw [List.cons_append, scan_ofNat hlead, List.cons_append, scanTail_ofNat hrange, List.cons_append,
      scanTail_ofNat ⟨by omega, by omega⟩, List.singleton_append,
      scanTail_ofNat ⟨by omega, by omega⟩, scanTail,
      show 64 * (64 * (64 * (v / 262144) + v / 4096 % 64) + v / 64 % 64) + v % 64 = v by omega, hchar]

theorem fromUtf8Lossy_encode (text : List Char) : fromUtf8Lossy (encode text) = text := by
  induction text with
  | nil => exact fromUtf8Lossy_of_done rfl
  | cons c text ih =>
    rw [encode, List.flatMap_cons, fromUtf8Lossy_of_char (scan_utf8EncodeChar c _), ← encode, ih]

end Kyth.Utf8
