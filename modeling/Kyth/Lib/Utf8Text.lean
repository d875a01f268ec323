import Kyth.Lib.TextLines

/-!
# Texts as bytes

A file holds the bytes of a text, or bytes that are no text at all. A newline is one byte, and that byte is
part of no other character; so the pieces of a text and the rows of its bytes correspond.
-/

namespace Kyth.Utf8Text

open Rows

variable {text : List Char} {bytes before after : List UInt8}

/-- `str::as_bytes`. -/
def encode (text : List Char) : List UInt8 := text.flatMap String.utf8EncodeChar

/-- `String::from_utf8`. -/
def decode (bytes : List UInt8) : Option (List Char) := bytes.toByteArray.utf8Decode?.map Array.toList

/-- The byte of a newline. -/
def newline : UInt8 := 10

@[simp] theorem encode_nil : encode [] = [] := rfl

@[simp] theorem encode_append (text more : List Char) :
    encode (text ++ more) = encode text ++ encode more := List.flatMap_append

@[simp] theorem encode_newline : encode ['\n'] = [newline] := rfl

theorem decode_eq_some : decode bytes = some text ↔ bytes = encode text := by
  have hencode : ∀ text : List Char, (encode text).toByteArray = text.utf8Encode := fun _ => rfl
  unfold decode
  constructor
  · intro h
    obtain ⟨chars, hchars, rfl⟩ := Option.map_eq_some_iff.1 h
    have hback : chars.toList.utf8Encode = bytes.toByteArray := by
      have hget := @ByteArray.utf8Encode_get_utf8Decode? bytes.toByteArray (by rw [hchars]; rfl)
      simpa only [hchars, Option.get_some] using hget
    rw [← hencode] at hback
    exact (List.toByteArray_inj.1 hback).symm
  · rintro rfl
    rw [hencode, List.utf8Decode?_utf8Encode]
    rfl

@[simp] theorem decode_encode (text : List Char) : decode (encode text) = some text :=
  decode_eq_some.2 rfl

/-- Only a newline is encoded with the byte of a newline. -/
theorem newline_not_mem_encode (h : '\n' ∉ text) : newline ∉ encode text := by
  intro hmem
  obtain ⟨c, hc, hbyte⟩ := List.mem_flatMap.1 hmem
  have hlarge : ∀ n : ℕ, 128 ≤ n % 256 → newline ≠ UInt8.ofNat n := by
    intro n hn heq
    have hnat := congrArg UInt8.toNat heq
    rw [UInt8.toNat_ofNat'] at hnat
    have hten : newline.toNat = 10 := rfl
    omega
  unfold String.utf8EncodeChar at hbyte
  dsimp only at hbyte
  split_ifs at hbyte with hone htwo hthree
  · rw [List.mem_singleton] at hbyte
    have hnat := congrArg UInt8.toNat hbyte
    rw [UInt8.toNat_ofNat'] at hnat
    have hten : newline.toNat = 10 := rfl
    have hchar : c = '\n' := by
      apply Char.ext
      apply UInt32.toNat_inj.1
      have hnewline : '\n'.val.toNat = 10 := rfl
      omega
    exact h (hchar ▸ hc)
  · rcases List.mem_cons.1 hbyte with hbyte | hbyte
    · exact hlarge _ (by omega) hbyte
    · exact hlarge _ (by omega) (List.mem_singleton.1 hbyte)
  · rcases List.mem_cons.1 hbyte with hbyte | hbyte
    · exact hlarge _ (by omega) hbyte
    · rcases List.mem_cons.1 hbyte with hbyte | hbyte
      · exact hlarge _ (by omega) hbyte
      · exact hlarge _ (by omega) (List.mem_singleton.1 hbyte)
  · rcases List.mem_cons.1 hbyte with hbyte | hbyte
    · exact hlarge _ (by omega) hbyte
    · rcases List.mem_cons.1 hbyte with hbyte | hbyte
      · exact hlarge _ (by omega) hbyte
      · rcases List.mem_cons.1 hbyte with hbyte | hbyte
        · exact hlarge _ (by omega) hbyte
        · exact hlarge _ (by omega) (List.mem_singleton.1 hbyte)

theorem encode_intercalate (pieces : List (List Char)) :
    encode (['\n'].intercalate pieces) = [newline].intercalate (pieces.map encode) := by
  induction pieces with
  | nil => rfl
  | cons piece pieces ih =>
    cases pieces with
    | nil => simp [List.intercalate]
    | cons next pieces =>
      rw [List.intercalate_cons_cons, List.map_cons, List.map_cons, List.intercalate_cons_cons,
        encode_append, encode_append, encode_newline, ih, List.map_cons]

/-- The pieces of the bytes of a text are the bytes of its pieces. -/
theorem splitOn_encode (text : List Char) :
    (encode text).splitOn newline = (text.splitOn '\n').map encode := by
  have hjoin : List.intercalate ['\n'] (text.splitOn '\n') = text := List.intercalate_splitOn '\n'
  conv_lhs => rw [← hjoin, encode_intercalate]
  refine List.splitOn_intercalate _ (fun row hrow => ?_) (by simp)
  obtain ⟨piece, hpiece, rfl⟩ := List.mem_map.1 hrow
  exact newline_not_mem_encode (PathText.not_mem_of_mem_splitOn hpiece)

theorem closed_encode (text : List Char) : closed newline (encode text) = encode (closed '\n' text) := by
  rcases List.eq_nil_or_concat text with rfl | ⟨front, c, rfl⟩
  · rfl
  · rw [List.concat_eq_append]
    by_cases hc : c = '\n'
    · rw [hc, encode_append, encode_newline, closed_concat, closed_concat, encode_append, encode_newline]
    · -- another character does not end in the byte of a newline
      have hbyte : newline ∉ encode [c] := newline_not_mem_encode (by simpa using Ne.symm hc)
      have hne : encode [c] ≠ [] := by simp [encode]
      have hopen : ¬ (front ++ [c] = [] ∨ (front ++ [c]).getLast? = some '\n') := by simp [hc]
      have hopen' : ¬ (encode (front ++ [c]) = [] ∨
          (encode (front ++ [c])).getLast? = some newline) := by
        rw [encode_append, List.getLast?_append_of_ne_nil _ hne]
        rintro (hnil | hlast)
        · exact hne (List.append_eq_nil_iff.1 hnil).2
        · exact hbyte (List.mem_of_getLast? hlast)
      unfold closed
      rw [if_neg hopen, if_neg hopen', encode_append (front ++ [c]), encode_newline]

/-- The rows of the bytes of a text are the bytes of its rows. -/
theorem rows_encode (text : List Char) : rows newline (encode text) = (rows '\n' text).map encode := by
  unfold rows
  rw [closed_encode, splitOn_encode, List.map_dropLast]

/-- What stands in front of a newline of a text is a text. -/
theorem exists_of_encode_eq (h : before ++ newline :: after = encode text) :
    ∃ first, before = encode first := by
  have hrows := congrArg (List.splitOn newline) h
  rw [List.splitOn_append_cons_self, splitOn_encode] at hrows
  have hfirst : before.splitOn newline =
      ((text.splitOn '\n').take (before.splitOn newline).length).map encode := by
    rw [List.map_take, ← hrows, List.take_left']
    rfl
  have hjoin : List.intercalate [newline] (before.splitOn newline) = before :=
    List.intercalate_splitOn newline
  rw [← hjoin, hfirst]
  exact ⟨_, (encode_intercalate _).symm⟩

/-- Bytes that are no text do not become one by what is written behind their last row. -/
theorem decode_closed_append (h : decode bytes = none) (more : List UInt8) :
    decode (closed newline bytes ++ more) = none := by
  refine Option.eq_none_iff_forall_ne_some.2 fun text htext => ?_
  have hinvalid : ∀ first, bytes ≠ encode first := fun first hfirst => by
    rw [hfirst, decode_encode] at h
    cases h
  rw [decode_eq_some] at htext
  rcases closed_eq newline bytes with ⟨-, hnil⟩ | ⟨before, hbefore, hbytes⟩
  · exact hinvalid [] hnil
  · rw [hbefore, List.append_assoc, List.singleton_append] at htext
    obtain ⟨first, rfl⟩ := exists_of_encode_eq htext
    rcases hbytes with hended | hopen
    · exact hinvalid (first ++ ['\n']) (by rw [hended, encode_append, encode_newline])
    · exact hinvalid first hopen

end Kyth.Utf8Text
