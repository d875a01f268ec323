import Kyth.Lib.Utf8Read
import Kyth.Vpn.Saml

/-!
# Cookies are read back (`system/vpn_saml.rs`)

The percent encoding writes bytes that the decoding gives back, whatever stands behind them, and it
writes neither blanks nor delimiters. So the parser finds in the cookie of a response the fields that
the cookie was made of (`parseGpSamlCookie_response`).
-/

namespace Kyth.Vpn

open Str SplitOnce Trim Utf8Text

variable {b : UInt8} {value : List Char} {fields : Fields}

/-! ### The encoding of a byte -/

theorem encode_formByte (b : UInt8) :
    encode (formByte b) = [b] ∧ b ≠ 37 ∧ b ≠ 43 ∨
      ∃ first second high low, encode (formByte b) = [37, first, second] ∧ hex first = some high ∧
        hex second = some low ∧ high * 16 + low = b := by
  have hbytes : ∀ n < 256, encode (formByte (UInt8.ofNat n)) = [UInt8.ofNat n] ∧
      UInt8.ofNat n ≠ 37 ∧ UInt8.ofNat n ≠ 43 ∨
      encode (formByte (UInt8.ofNat n)) = [37, UInt8.ofNat (upperDigit (n / 16)).toNat,
        UInt8.ofNat (upperDigit (n % 16)).toNat] ∧
      hex (UInt8.ofNat (upperDigit (n / 16)).toNat) = some (UInt8.ofNat (n / 16)) ∧
      hex (UInt8.ofNat (upperDigit (n % 16)).toNat) = some (UInt8.ofNat (n % 16)) ∧
      UInt8.ofNat (n / 16) * 16 + UInt8.ofNat (n % 16) = UInt8.ofNat n := by
    decide +kernel
  have hb := hbytes b.toNat b.toNat_lt
  rw [UInt8.ofNat_toNat] at hb
  exact hb.imp_right fun h => ⟨_, _, _, _, h⟩

theorem decodeBytes_cons (hb : b ≠ 37) (rest : List UInt8) :
    decodeBytes (b :: rest) = plainByte b :: decodeBytes rest := by
  rcases rest with _ | ⟨first, _ | ⟨second, rest⟩⟩
  · rfl
  · rfl
  · rw [decodeBytes, if_neg hb]

theorem decodeBytes_triple {first second high low : UInt8} (hhigh : hex first = some high)
    (hlow : hex second = some low) (rest : List UInt8) :
    decodeBytes (37 :: first :: second :: rest) = (high * 16 + low) :: decodeBytes rest := by
  rw [decodeBytes, if_pos rfl, hhigh, hlow]

theorem decodeBytes_formByte (b : UInt8) (rest : List UInt8) :
    decodeBytes (encode (formByte b) ++ rest) = b :: decodeBytes rest := by
  rcases encode_formByte b with ⟨hself, hpercent, hplus⟩ | ⟨first, second, high, low, htriple, hhigh, hlow, hb⟩
  · rw [hself, List.singleton_append, decodeBytes_cons hpercent, plainByte, if_neg hplus]
  · rw [htriple, List.cons_append, List.cons_append, List.singleton_append,
      decodeBytes_triple hhigh hlow, hb]

theorem decodeBytes_formBytes (bytes : List UInt8) :
    decodeBytes (encode (bytes.flatMap formByte)) = bytes := by
  induction bytes with
  | nil => rfl
  | cons b bytes ih => rw [List.flatMap_cons, encode_append, decodeBytes_formByte, ih]

theorem percentDecode_formEncode (value : List Char) : percentDecode (formEncode value) = value := by
  rw [percentDecode, formEncode, decodeBytes_formBytes, Utf8.fromUtf8Lossy_encode]

/-! ### The characters of a cookie -/

/-- A character that the parser takes as it is. -/
def isPlain (c : Char) : Bool := c != '&' && c != '=' && !isWhitespace c

theorem isPlain_formByte (b : UInt8) : (formByte b).all isPlain = true := by
  have hbytes : ∀ n < 256, (formByte (UInt8.ofNat n)).all isPlain = true := by decide +kernel
  have hb := hbytes b.toNat b.toNat_lt
  rwa [UInt8.ofNat_toNat] at hb

theorem isPlain_formEncode (value : List Char) : ∀ c ∈ formEncode value, isPlain c = true := by
  intro c hc
  obtain ⟨b, -, hcb⟩ := List.mem_flatMap.1 hc
  exact List.all_eq_true.1 (isPlain_formByte b) c hcb

theorem not_mem_of_isPlain {c : Char} (hc : isPlain c = false) {text : List Char}
    (h : ∀ d ∈ text, isPlain d = true) : c ∉ text := by
  intro hmem
  rw [h c hmem] at hc
  cases hc

/-- A key that the parser gives back. -/
def IsKey (key : List Char) : Prop :=
  (∀ c ∈ key, isPlain c = true) ∧ (trimmed (percentDecode key)).map charLower = key

theorem cookiePart_append {key : List Char} (hkey : IsKey key) (value : List Char) :
    cookiePart (key ++ '=' :: formEncode value) = (key, value) := by
  have hsplit := splitOnce_append (not_mem_of_isPlain (by decide : isPlain '=' = false) hkey.1)
    (formEncode value)
  rw [cookiePart, hsplit]
  simp only [Option.getD_some]
  rw [hkey.2, percentDecode_formEncode]

theorem isKey_of_formEncode {key : List Char} (hself : formEncode key = key)
    (hlower : (trimmed key).map charLower = key) : IsKey key := by
  constructor
  · rw [← hself]
    exact isPlain_formEncode key
  · have hdecode := percentDecode_formEncode key
    rw [hself] at hdecode
    rw [hdecode, hlower]

theorem isKey_usernameKey : IsKey usernameKey :=
  isKey_of_formEncode (by decide) (by decide)

theorem isKey_of_mem {name : List Char} (h : name ∈ cookieNames) : IsKey name := by
  have hnames : ∀ name ∈ cookieNames, formEncode name = name ∧ (trimmed name).map charLower = name := by
    decide
  exact isKey_of_formEncode (hnames name h).1 (hnames name h).2

/-! ### Fields that are read back -/

/-- Fields of a response: a name that the parser looks for, and a value. -/
structure IsResponse (fields : Fields) : Prop where
  name : fields.1 ∈ cookieNames
  value : fields.2.1 ≠ []

theorem value_ne_nil_of_xmlTag {text tag : List Char} (h : xmlTag text tag = some value) : value ≠ [] := by
  unfold xmlTag at h
  simp only [Option.bind_eq_bind, Option.bind_eq_some_iff] at h
  obtain ⟨_, _, _, _, h⟩ := h
  split_ifs at h with hne
  cases h
  exact hne

theorem isResponse_of_responseFields {headers body : List Char}
    (h : responseFields headers body = some fields) : IsResponse fields := by
  have hnames : ∀ name ∈ responseNames, name ∈ cookieNames := by decide
  obtain ⟨name, hname, hfields⟩ := List.exists_of_findSome?_eq_some h
  unfold fieldsNamed at hfields
  split at hfields
  · rename_i value hvalue
    cases hfields
    obtain ⟨line, -, hline⟩ := List.exists_of_findSome?_eq_some hvalue
    exact ⟨hnames name hname, of_decide_eq_true (Option.filter_eq_some_iff.1 hline).2⟩
  · obtain ⟨value, hvalue, rfl⟩ := Option.map_eq_some_iff.1 hfields
    exact ⟨hnames name hname, value_ne_nil_of_xmlTag hvalue⟩

/-- A key with an encoded value. -/
def partText (key value : List Char) : List Char := key ++ '=' :: formEncode value

theorem cookieText_eq (fields : Fields) : cookieText fields =
    partText fields.1 fields.2.1 ++ '&' :: partText usernameKey fields.2.2 := by
  simp [cookieText, partText]

theorem mem_partText {key : List Char} {c : Char} (hkey : IsKey key) (h : c ∈ partText key value) :
    c = '=' ∨ isPlain c = true := by
  rw [partText, List.mem_append, List.mem_cons] at h
  rcases h with h | rfl | h
  · exact .inr (hkey.1 c h)
  · exact .inl rfl
  · exact .inr (isPlain_formEncode value c h)

theorem trimmed_cookieText (h : IsResponse fields) : trimmed (cookieText fields) = cookieText fields := by
  have hpart : ∀ c, c = '=' ∨ isPlain c = true → isWhitespace c = false := by
    rintro c (rfl | hc)
    · decide
    · simp only [isPlain, Bool.and_eq_true, Bool.not_eq_true'] at hc
      exact hc.2
  refine trimmed_of_forall fun c hc => ?_
  rw [cookieText_eq, List.mem_append, List.mem_cons] at hc
  rcases hc with hc | rfl | hc
  · exact hpart c (mem_partText (isKey_of_mem h.name) hc)
  · decide
  · exact hpart c (mem_partText isKey_usernameKey hc)

theorem splitOn_cookieText (h : IsResponse fields) :
    (cookieText fields).splitOn '&' = [partText fields.1 fields.2.1, partText usernameKey fields.2.2] := by
  have hpart : ∀ {key value}, IsKey key → '&' ∉ partText key value := by
    intro key value hkey hmem
    rcases mem_partText hkey hmem with h | h
    · exact absurd h (by decide)
    · exact absurd h (by decide)
  rw [cookieText_eq, List.splitOn_append_cons_self_of_not_mem (hpart (isKey_of_mem h.name)),
    List.splitOn_eq_singleton (hpart isKey_usernameKey)]

theorem parseGpSamlCookie_cookieText (h : IsResponse fields) :
    parseGpSamlCookie (cookieText fields) = fields := by
  have hne : cookieText fields ≠ [] := by
    rw [cookieText_eq]
    simp
  have hcookie : isCookie (fields.1, fields.2.1) = true := by
    simp [isCookie, h.name, h.value]
  unfold parseGpSamlCookie
  simp only [trimmed_cookieText h, if_neg hne, splitOn_cookieText h, List.map_cons, List.map_nil, partText,
    cookiePart_append (isKey_of_mem h.name), cookiePart_append isKey_usernameKey,
    List.find?_cons_of_pos hcookie, List.foldl_cons, List.foldl_nil, if_true]

/-- The parser gives back the fields that the cookie of a response was made of, and the decoding of a
form gives back every value. -/
theorem parseGpSamlCookie_response (headers body value : List Char) :
    (parseSamlAcsResponse headers body).map parseGpSamlCookie = responseFields headers body ∧
      percentDecode (formEncode value) = value := by
  refine ⟨?_, percentDecode_formEncode value⟩
  rw [parseSamlAcsResponse, Option.map_map]
  cases hfields : responseFields headers body with
  | none => rfl
  | some fields =>
    exact congrArg some (parseGpSamlCookie_cookieText (isResponse_of_responseFields hfields))

end Kyth.Vpn
