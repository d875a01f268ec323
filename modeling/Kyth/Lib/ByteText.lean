import Kyth.Lib.Boundary
import Kyth.Lib.Utf8Text

/-!
# Cutting a text next to an ASCII byte

Code that walks over the bytes of a text stops at ASCII bytes, which are characters of their own. So a
text can be cut in front of one and behind one: `exists_cut_front` and `exists_cut_behind`.
-/

namespace Kyth.ByteText

open Boundary Utf8Text

variable {text before after : List Char} {bytes front back : List UInt8} {c : Char} {b : UInt8}

/-- The bytes that are characters. -/
def isAscii (b : UInt8) : Bool := b.toNat < 128

/-- A character with an ASCII byte is that byte. -/
theorem utf8EncodeChar_eq_singleton (h : b ∈ String.utf8EncodeChar c) (hb : isAscii b = true) :
    String.utf8EncodeChar c = [b] := by
  have hlarge : ∀ n : ℕ, 128 ≤ n % 256 → isAscii (UInt8.ofNat n) = false := by
    intro n hn
    rw [isAscii, UInt8.toNat_ofNat']
    exact decide_eq_false (by omega)
  unfold String.utf8EncodeChar at h ⊢
  dsimp only at h ⊢
  split_ifs at h ⊢ with hone htwo hthree
  · rw [List.mem_singleton.1 h]
  all_goals
    exfalso
    simp only [List.mem_cons, List.not_mem_nil, or_false] at h
    rcases h with rfl | rfl | rfl | rfl
    all_goals
      rw [hlarge _ (by omega)] at hb
      cases hb

/-- The bytes are counted alike. -/
theorem length_encode (text : List Char) : (encode text).length = byteLength text := by
  rw [encode, List.length_flatMap, byteLength]
  simp

/-- A byte sequence may be cut next to an ASCII byte, and at its ends. -/
def Clean (front back : List UInt8) : Prop :=
  (∀ b, front.getLast? = some b → isAscii b = true) ∨ ∀ b, back.head? = some b → isAscii b = true

/-- The bytes of a text come apart next to an ASCII byte as the bytes of two texts. -/
theorem exists_split (h : encode text = front ++ back) (hcut : Clean front back) :
    ∃ before after, text = before ++ after ∧ encode before = front ∧ encode after = back := by
  induction text generalizing front with
  | nil =>
    obtain ⟨rfl, rfl⟩ := List.append_eq_nil_iff.1 h.symm
    exact ⟨[], [], rfl, rfl, rfl⟩
  | cons c text ih =>
    have hcons : encode (c :: text) = String.utf8EncodeChar c ++ encode text := List.flatMap_cons
    rw [hcons, List.append_eq_append_iff] at h
    rcases h with ⟨front', rfl, hrest⟩ | ⟨inner, hchar, hback⟩
    · -- the first character lies in front
      have hcut' : Clean front' back := by
        refine hcut.imp_left fun hlast b hb => hlast b ?_
        rw [List.getLast?_append, hb]
        rfl
      obtain ⟨before, after, rfl, rfl, hafter⟩ := ih hrest hcut'
      exact ⟨c :: before, after, rfl, List.flatMap_cons, hafter⟩
    · -- the cut is in the first character or at an end of it
      rcases List.eq_nil_or_concat front with rfl | ⟨init, b, rfl⟩
      · exact ⟨[], c :: text, rfl, rfl, by rw [hcons, hchar, hback, List.nil_append]⟩
      · rw [List.concat_eq_append] at hchar hcut ⊢
        cases inner with
        | nil =>
          refine ⟨[c], text, rfl, ?_, hback.symm⟩
          rw [List.append_nil] at hchar
          rw [← hchar, encode, List.flatMap_cons, List.flatMap_nil, List.append_nil]
        | cons d inner =>
          have hlong : ∀ e, String.utf8EncodeChar c ≠ [e] := by
            intro e he
            have hlength := congrArg List.length (hchar.symm.trans he)
            simp only [List.length_append, List.length_cons, List.length_nil] at hlength
            omega
          rcases hcut with hlast | hhead
          · refine absurd (utf8EncodeChar_eq_singleton ?_ (hlast b (by simp))) (hlong b)
            rw [hchar]
            simp
          · refine absurd (utf8EncodeChar_eq_singleton ?_ (hhead d (by rw [hback]; rfl))) (hlong d)
            rw [hchar]
            simp

/-- A text can be cut behind an ASCII byte. -/
theorem exists_cut_behind {i : ℕ} (hb : (encode text)[i]? = some b) (hascii : isAscii b = true) :
    ∃ before after, text = before ++ after ∧ encode before = (encode text).take (i + 1) := by
  obtain ⟨hi, hget⟩ := List.getElem?_eq_some_iff.1 hb
  have hcut : Clean ((encode text).take (i + 1)) ((encode text).drop (i + 1)) := by
    refine .inl fun d hd => ?_
    rw [List.take_succ_eq_append_getElem hi, List.getLast?_concat, Option.some.injEq] at hd
    exact hd ▸ hget ▸ hascii
  obtain ⟨before, after, htext, hbefore, -⟩ := exists_split (List.take_append_drop (i + 1) _).symm hcut
  exact ⟨before, after, htext, hbefore⟩

/-- A text can be cut in front of an ASCII byte, and at its end. -/
theorem exists_cut_front {i : ℕ} (hascii : ∀ b, (encode text)[i]? = some b → isAscii b = true) :
    ∃ before after, text = before ++ after ∧ encode before = (encode text).take i := by
  have hcut : Clean ((encode text).take i) ((encode text).drop i) := by
    refine .inr fun d hd => hascii d ?_
    rwa [List.head?_drop] at hd
  obtain ⟨before, after, htext, hbefore, -⟩ := exists_split (List.take_append_drop i _).symm hcut
  exact ⟨before, after, htext, hbefore⟩

/-- Texts with the same bytes are the same. -/
theorem encode_injective : Function.Injective encode := by
  intro text more h
  have hdecode := congrArg decode h
  rwa [decode_encode, decode_encode, Option.some.injEq] at hdecode

/-! ### Lower case -/

/-- `u8::to_ascii_lowercase`. -/
def lowerByte (b : UInt8) : UInt8 := if 65 ≤ b.toNat ∧ b.toNat ≤ 90 then b + 32 else b

theorem lowerByte_of_not_isAscii (h : isAscii b = false) : lowerByte b = b := by
  have hlarge := of_decide_eq_false h
  rw [lowerByte, if_neg (by omega)]

/-- The byte of a character that has one. -/
theorem toNat_of_utf8EncodeChar (h : String.utf8EncodeChar c = [b]) : b.toNat = c.toNat := by
  unfold String.utf8EncodeChar at h
  dsimp only at h
  split_ifs at h with hone htwo hthree
  · rw [List.singleton_inj] at h
    rw [← h, UInt8.toNat_ofNat']
    change c.val.toNat % 256 = c.val.toNat
    omega
  all_goals simp at h

/-- Lower case is written byte by byte. -/
theorem encode_lower (text : List Char) :
    encode (text.map Str.charLower) = (encode text).map lowerByte := by
  have hchar : ∀ c, String.utf8EncodeChar (Str.charLower c) =
      (String.utf8EncodeChar c).map lowerByte := by
    intro c
    unfold Str.charLower
    split_ifs with hupper
    · have hcases : ∀ n < 26, String.utf8EncodeChar (Char.ofNat (65 + n + 32)) =
          (String.utf8EncodeChar (Char.ofNat (65 + n))).map lowerByte := by
        decide
      obtain ⟨n, hn⟩ := Nat.exists_eq_add_of_le hupper.1
      have hsmall := hcases n (by omega)
      rw [← hn, Char.ofNat_toNat] at hsmall
      exact hsmall
    · have hsame : ∀ b ∈ String.utf8EncodeChar c, lowerByte b = b := by
        intro b hb
        cases hascii : isAscii b with
        | false => exact lowerByte_of_not_isAscii hascii
        | true =>
          have hnat := toNat_of_utf8EncodeChar (utf8EncodeChar_eq_singleton hb hascii)
          rw [lowerByte, if_neg (hnat ▸ hupper)]
      rw [List.map_congr_left hsame, List.map_id']
  rw [encode, List.flatMap_map, encode, List.map_flatMap]
  exact List.flatMap_congr fun c _ => hchar c

end Kyth.ByteText
