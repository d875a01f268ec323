import Kyth.Lib.Str

/-!
# IP addresses as texts

The address parser of the Rust standard library: an IPv4 address is four decimal numbers without a
leading zero, an IPv6 address eight groups of up to four hex digits, where `::` stands for at least one
group of zeros and the last two groups may be written as an IPv4 address. Every reader takes a text and
returns what it read and the text behind it. `ipv6_shape` says what the text of an IPv6 address looks
like.
-/

namespace Kyth.IpAddr

open Str

/-- An address: the four octets of an IPv4 address, or the eight groups of an IPv6 address. -/
inductive Address
  | v4 (octets : List ℕ)
  | v6 (groups : List ℕ)
  deriving DecidableEq, Repr

/-- The value of a digit. -/
def toDigit (radix : ℕ) (c : Char) : Option ℕ :=
  let value := if isAsciiDigit c then c.toNat - 48
    else if 97 ≤ c.toNat ∧ c.toNat ≤ 102 then c.toNat - 87
    else if 65 ≤ c.toNat ∧ c.toNat ≤ 70 then c.toNat - 55
    else radix
  if value < radix then some value else none

def readGivenChar (target : Char) : List Char → Option (List Char)
  | c :: s => if c = target then some s else none
  | [] => none

/-- A number below `bound` of at most `maxDigits` digits. -/
def readNumber (radix maxDigits bound : ℕ) (allowZeroPrefix : Bool) (s : List Char) :
    Option (ℕ × List Char) :=
  let digits := s.takeWhile fun c => (toDigit radix c).isSome
  let value := digits.foldl (fun value c => value * radix + (toDigit radix c).getD 0) 0
  if digits = [] ∨ maxDigits < digits.length then none
  else if !allowZeroPrefix && s.head? == some '0' && decide (1 < digits.length) then none
  else if value < bound then some (value, s.dropWhile fun c => (toDigit radix c).isSome)
  else none

/-- Whatever `inner` reads, behind a separator if it is not the first. -/
def readSeparator {β : Type} (separator : Char) (index : ℕ) (inner : List Char → Option (β × List Char))
    (s : List Char) : Option (β × List Char) :=
  if 0 < index then (readGivenChar separator s).bind inner else inner s

/-- The octets from `index` on. -/
def readOctets : ℕ → ℕ → List Char → Option (List ℕ × List Char)
  | 0, _, s => some ([], s)
  | left + 1, index, s => do
      let (octet, s) ← readSeparator '.' index (readNumber 10 3 256 false) s
      let (octets, s) ← readOctets left (index + 1) s
      return (octet :: octets, s)

def readIpv4Addr (s : List Char) : Option (List ℕ × List Char) := readOctets 4 0 s

/-- Two octets in one group. -/
def octetGroups : List ℕ → List ℕ
  | one :: two :: octets => (one * 256 + two) :: octetGroups octets
  | _ => []

/-- Up to `left` groups from `index` on, and whether the last ones were an IPv4 address. -/
def readGroups : ℕ → ℕ → List Char → List ℕ × Bool × List Char
  | 0, _, s => ([], false, s)
  | left + 1, index, s =>
      match if 0 < left then readSeparator ':' index readIpv4Addr s else none with
      | some (octets, s) => (octetGroups octets, true, s)
      | none =>
        match readSeparator ':' index (readNumber 16 4 65536 true) s with
        | some (group, s) =>
            let (groups, ipv4, s) := readGroups left (index + 1) s
            (group :: groups, ipv4, s)
        | none => ([], false, s)

def readIpv6Addr (s : List Char) : Option (List ℕ × List Char) :=
  let (head, headIpv4, s) := readGroups 8 0 s
  if head.length = 8 then some (head, s)
  -- an IPv4 address may not stand in front of `::`
  else if headIpv4 then none
  else do
    let s ← readGivenChar ':' s
    let s ← readGivenChar ':' s
    let (tail, _, s) := readGroups (8 - (head.length + 1)) 0 s
    return (head ++ List.replicate (8 - head.length - tail.length) 0 ++ tail, s)

def readIpAddr (s : List Char) : Option (Address × List Char) :=
  ((readIpv4Addr s).map fun (octets, s) => (.v4 octets, s)).orElse fun _ =>
    (readIpv6Addr s).map fun (groups, s) => (.v6 groups, s)

/-- `str::parse::<IpAddr>`: an address and nothing behind it. -/
def parse (s : List Char) : Option Address :=
  match readIpAddr s with
  | some (address, []) => some address
  | _ => none

/-- A text that is parsed as an IPv6 address. -/
def isIpv6 (s : List Char) : Bool :=
  match parse s with
  | some (.v6 _) => true
  | _ => false

/-! ### What is read -/

section
variable {radix maxDigits bound value n index : ℕ} {zeros : Bool} {s r : List Char} {c separator : Char}
  {octets : List ℕ} {β : Type} {inner : List Char → Option (β × List Char)} {b : β}

theorem toDigit_hex (c : Char) : (toDigit 16 c).isSome = isAsciiHexdigit c := by
  rw [Bool.eq_iff_iff]
  simp only [toDigit, isAsciiHexdigit, isAsciiDigit, Bool.and_eq_true, Bool.or_eq_true,
    decide_eq_true_eq]
  split_ifs <;> simp <;> omega

theorem toDigit_decimal (c : Char) : (toDigit 10 c).isSome = isAsciiDigit c := by
  rw [Bool.eq_iff_iff]
  simp only [toDigit, isAsciiDigit, Bool.and_eq_true, decide_eq_true_eq]
  split_ifs <;> simp <;> omega

theorem readGivenChar_eq_some : readGivenChar c s = some r ↔ s = c :: r := by
  cases s with
  | nil => simp [readGivenChar]
  | cons d s =>
    rw [readGivenChar]
    split_ifs with hd
    · rw [hd, Option.some.injEq, List.cons.injEq]
      exact ⟨fun h => ⟨rfl, h⟩, And.right⟩
    · constructor
      · intro h
        cases h
      · intro h
        exact absurd (List.cons.inj h).1 hd

/-- A number is read off as its digits. -/
theorem readNumber_eq_some (h : readNumber radix maxDigits bound zeros s = some (value, r)) :
    ∃ digits, s = digits ++ r ∧ digits ≠ [] ∧ digits.length ≤ maxDigits ∧
      ∀ c ∈ digits, (toDigit radix c).isSome := by
  simp only [readNumber] at h
  split_ifs at h with hlength hzero hvalue
  cases h
  push Not at hlength
  refine ⟨_, (List.takeWhile_append_dropWhile ..).symm, hlength.1, hlength.2, fun c hc => ?_⟩
  exact List.mem_takeWhile_imp (p := fun c => (toDigit radix c).isSome) hc

theorem readSeparator_succ : readSeparator separator (index + 1) inner s = some (b, r) ↔
    ∃ s', s = separator :: s' ∧ inner s' = some (b, r) := by
  rw [readSeparator, if_pos index.succ_pos, Option.bind_eq_some_iff]
  simp only [readGivenChar_eq_some]

/-- One to three digits. -/
def IsOctet (text : List Char) : Prop :=
  text ≠ [] ∧ text.length ≤ 3 ∧ ∀ c ∈ text, isAsciiDigit c = true

theorem isOctet_of_readNumber (h : readNumber 10 3 256 false s = some (value, r)) :
    ∃ text, s = text ++ r ∧ IsOctet text := by
  obtain ⟨text, hs, hne, hlength, hdigits⟩ := readNumber_eq_some h
  exact ⟨text, hs, hne, hlength, fun c hc => (toDigit_decimal c).symm.trans (hdigits c hc)⟩

/-- The octets behind the first one. -/
theorem readOctets_eq_some (h : readOctets n (index + 1) s = some (octets, r)) :
    octets.length = n ∧ ∃ texts : List (List Char), texts.length = n ∧
      s = texts.flatMap ('.' :: ·) ++ r ∧ ∀ text ∈ texts, IsOctet text := by
  induction n generalizing index s octets with
  | zero =>
    cases h
    exact ⟨rfl, [], rfl, rfl, by simp⟩
  | succ n ih =>
    simp only [readOctets, Option.bind_eq_bind, Option.bind_eq_some_iff, Prod.exists] at h
    obtain ⟨octet, s', hoctet, octets', r', hrest, h⟩ := h
    cases h
    obtain ⟨s'', rfl, hnumber⟩ := readSeparator_succ.1 hoctet
    obtain ⟨text, rfl, htext⟩ := isOctet_of_readNumber hnumber
    obtain ⟨hlength, texts, htexts, rfl, hall⟩ := ih hrest
    refine ⟨by rw [List.length_cons, hlength], text :: texts, by rw [List.length_cons, htexts], ?_,
      List.forall_mem_cons.2 ⟨htext, hall⟩⟩
    rw [List.flatMap_cons, List.cons_append, List.cons_append, List.append_assoc]

/-- Four octets and the dots between them. -/
def IsQuad (text : List Char) : Prop :=
  ∃ a b c d, IsOctet a ∧ IsOctet b ∧ IsOctet c ∧ IsOctet d ∧
    text = a ++ '.' :: (b ++ '.' :: (c ++ '.' :: d))

theorem readIpv4Addr_eq_some (h : readIpv4Addr s = some (octets, r)) :
    octets.length = 4 ∧ ∃ text, s = text ++ r ∧ IsQuad text := by
  change readOctets (3 + 1) 0 s = _ at h
  rw [readOctets] at h
  simp only [Option.bind_eq_bind, Option.bind_eq_some_iff, Prod.exists] at h
  obtain ⟨octet, s', hoctet, octets', r', hrest, h⟩ := h
  cases h
  obtain ⟨a, rfl, ha⟩ := isOctet_of_readNumber hoctet
  obtain ⟨hlength, texts, htexts, rfl, hall⟩ := readOctets_eq_some hrest
  obtain ⟨b, c, d, rfl⟩ := List.length_eq_three.1 htexts
  refine ⟨by rw [List.length_cons, hlength], a ++ '.' :: (b ++ '.' :: (c ++ '.' :: d)), ?_,
    a, b, c, d, ha, hall b (by simp), hall c (by simp), hall d (by simp), rfl⟩
  simp

theorem isAsciiHexdigit_of_digit (h : isAsciiDigit c = true) : isAsciiHexdigit c = true := by
  rw [isAsciiHexdigit, h]
  rfl

theorem IsQuad.exists_digit {text : List Char} (h : IsQuad text) : ∃ c ∈ text, isAsciiHexdigit c = true := by
  obtain ⟨a, b, c, d, ⟨hne, -, hdigits⟩, -, -, -, rfl⟩ := h
  obtain ⟨first, rest, rfl⟩ := List.exists_cons_of_ne_nil hne
  exact ⟨first, by simp, isAsciiHexdigit_of_digit (hdigits first List.mem_cons_self)⟩

/-- The text of some groups: hex digits and colons, and at the end an IPv4 address perhaps, which has a
colon in front of it. The first group has one too, unless the index is 0. -/
structure GroupsText (index : ℕ) (groups : List ℕ) (ipv4 : Bool) (front quad : List Char) : Prop where
  chars : ∀ c ∈ front, isAsciiHexdigit c = true ∨ c = ':'
  colons : groups.length ≤ front.count ':' + (if index = 0 then 1 else 0) + (if ipv4 then 1 else 0)
  plain : ipv4 = false → quad = []
  isQuad : ipv4 = true → IsQuad quad
  joined : ipv4 = true → index = 0 ∧ front = [] ∨ front.getLast? = some ':'
  eq_nil : groups = [] → front ++ quad = []
  digit : groups ≠ [] → ∃ c ∈ front ++ quad, isAsciiHexdigit c = true

theorem octetGroups_eq (h : octets.length = 4) : ∃ high low, octetGroups octets = [high, low] := by
  obtain ⟨one, two, three, four, rfl⟩ := List.length_eq_four.1 h
  exact ⟨_, _, rfl⟩

/-- The groups at the end, read from an IPv4 address. -/
theorem groupsText_quad {front quad : List Char} (h : octets.length = 4) (hquad : IsQuad quad)
    (hfront : front = if index = 0 then [] else [':']) :
    GroupsText index (octetGroups octets) true front quad := by
  obtain ⟨high, low, hgroups⟩ := octetGroups_eq h
  obtain ⟨c, hc, hdigit⟩ := hquad.exists_digit
  rw [hgroups, hfront]
  refine ⟨?_, ?_, fun h => by simp at h, fun _ => hquad, fun _ => ?_, fun h => by simp at h,
    fun _ => ⟨c, List.mem_append_right _ hc, hdigit⟩⟩ <;> split_ifs <;> simp_all

theorem IsQuad.chars {text : List Char} (h : IsQuad text) :
    ∀ c ∈ text, isAsciiHexdigit c = true ∨ c = '.' := by
  obtain ⟨a, b, d, e, ha, hb, hd, he, rfl⟩ := h
  have hoctet : ∀ {octet : List Char}, IsOctet octet → ∀ c ∈ octet, isAsciiHexdigit c = true :=
    fun h c hc => isAsciiHexdigit_of_digit (h.2.2 c hc)
  intro c hc
  simp only [List.mem_append, List.mem_cons] at hc
  rcases hc with hc | rfl | hc | rfl | hc | rfl | hc
  · exact .inl (hoctet ha c hc)
  · exact .inr rfl
  · exact .inl (hoctet hb c hc)
  · exact .inr rfl
  · exact .inl (hoctet hd c hc)
  · exact .inr rfl
  · exact .inl (hoctet he c hc)

/-- A group in front of other groups. -/
theorem groupsText_cons {front quad digits sep : List Char} {groups : List ℕ} {ipv4 : Bool} (group : ℕ)
    (hne : digits ≠ []) (hdigits : ∀ c ∈ digits, isAsciiHexdigit c = true)
    (hsep : sep = if index = 0 then [] else [':'])
    (h : GroupsText (index + 1) groups ipv4 front quad) :
    GroupsText index (group :: groups) ipv4 (sep ++ (digits ++ front)) quad := by
  obtain ⟨hchars, hcolons, hplain, hisQuad, hjoined, -, -⟩ := h
  obtain ⟨c, rest, rfl⟩ := List.exists_cons_of_ne_nil hne
  refine ⟨?_, ?_, hplain, hisQuad, fun hipv4 => ?_, fun h => by simp at h, fun _ => ⟨c, by simp,
    hdigits c List.mem_cons_self⟩⟩
  · intro d hd
    rcases List.mem_append.1 hd with hd | hd
    · right
      rw [hsep] at hd
      split_ifs at hd <;> simp_all
    · rcases List.mem_append.1 hd with hd | hd
      · exact .inl (hdigits d hd)
      · exact hchars d hd
  · have hcount : sep.count ':' + (if index = 0 then 1 else 0) = 1 := by
      rw [hsep]
      split_ifs <;> rfl
    rw [if_neg index.succ_ne_zero] at hcolons
    rw [List.count_append, List.count_append, List.length_cons]
    omega
  · right
    have hlast := (hjoined hipv4).resolve_left fun h => index.succ_ne_zero h.1
    have hfront : front ≠ [] := by
      rintro rfl
      cases hlast
    rw [List.getLast?_append_of_ne_nil _ (by simp), List.getLast?_append_of_ne_nil _ hfront, hlast]

theorem readGroups_eq (left index : ℕ) (s : List Char) :
    ∃ front quad, s = front ++ (quad ++ (readGroups left index s).2.2) ∧
      GroupsText index (readGroups left index s).1 (readGroups left index s).2.1 front quad := by
  induction left generalizing index s with
  | zero =>
    refine ⟨[], [], rfl, ?_⟩
    constructor <;> simp [readGroups]
  | succ left ih =>
    rw [readGroups]
    cases hquad : if 0 < left then readSeparator ':' index readIpv4Addr s else none with
    | some read =>
      obtain ⟨octets, r⟩ := read
      have hread : readSeparator ':' index readIpv4Addr s = some (octets, r) := by
        split_ifs at hquad
        exact hquad
      cases index with
      | zero =>
        obtain ⟨hlength, quad, rfl, hisQuad⟩ := readIpv4Addr_eq_some hread
        exact ⟨[], quad, rfl, groupsText_quad hlength hisQuad rfl⟩
      | succ index =>
        obtain ⟨s', rfl, hread⟩ := readSeparator_succ.1 hread
        obtain ⟨hlength, quad, rfl, hisQuad⟩ := readIpv4Addr_eq_some hread
        exact ⟨[':'], quad, rfl, groupsText_quad hlength hisQuad (if_neg index.succ_ne_zero).symm⟩
    | none =>
      cases hnumber : readSeparator ':' index (readNumber 16 4 65536 true) s with
      | none =>
        refine ⟨[], [], rfl, ?_⟩
        constructor <;> simp
      | some read =>
        obtain ⟨group, r⟩ := read
        obtain ⟨front, quad, hr, htext⟩ := ih (index + 1) r
        have hdigits : ∀ digits : List Char, (∀ c ∈ digits, (toDigit 16 c).isSome) →
            ∀ c ∈ digits, isAsciiHexdigit c = true :=
          fun digits h c hc => (toDigit_hex c).symm.trans (h c hc)
        cases index with
        | zero =>
          obtain ⟨digits, rfl, hne, -, hall⟩ := readNumber_eq_some hnumber
          refine ⟨digits ++ front, quad, ?_, groupsText_cons group hne (hdigits _ hall) rfl htext⟩
          rw [List.append_assoc, ← hr]
        | succ index =>
          obtain ⟨s', rfl, hnumber⟩ := readSeparator_succ.1 hnumber
          obtain ⟨digits, rfl, hne, -, hall⟩ := readNumber_eq_some hnumber
          refine ⟨':' :: (digits ++ front), quad, ?_,
            groupsText_cons group hne (hdigits _ hall) (if_neg index.succ_ne_zero).symm htext⟩
          rw [List.cons_append, List.append_assoc, ← hr]

end

/-- The text of an IPv6 address: hex digits and at least two colons, and perhaps an IPv4 address behind
a colon at the end. Unless it is `::`, there is a digit in it. -/
structure Shape (literal : List Char) : Prop where
  exists_front : ∃ front quad, literal = front ++ quad ∧
    (∀ c ∈ front, isAsciiHexdigit c = true ∨ c = ':') ∧ 2 ≤ front.count ':' ∧
    (quad = [] ∨ IsQuad quad ∧ front.getLast? = some ':')
  digit : literal = [':', ':'] ∨ ∃ c ∈ literal, isAsciiHexdigit c = true

/-- What an address is made of. -/
def isAddressChar (c : Char) : Bool := isAsciiHexdigit c || c == ':' || c == '.'

theorem Shape.chars {literal : List Char} (h : Shape literal) : ∀ c ∈ literal, isAddressChar c = true := by
  obtain ⟨front, quad, rfl, hfront, -, hquad⟩ := h.exists_front
  intro c hc
  rw [isAddressChar, Bool.or_eq_true, Bool.or_eq_true, beq_iff_eq, beq_iff_eq]
  rcases List.mem_append.1 hc with hc | hc
  · exact .inl (hfront c hc)
  · rcases hquad with rfl | ⟨hquad, -⟩
    · cases hc
    · exact (hquad.chars c hc).imp_left .inl

theorem shape_of_readIpv6Addr {literal : List Char} {groups : List ℕ}
    (h : readIpv6Addr literal = some (groups, [])) : Shape literal := by
  obtain ⟨front, quad, hs, htext⟩ := readGroups_eq 8 0 literal
  rw [readIpv6Addr] at h
  generalize readGroups 8 0 literal = read at h hs htext
  obtain ⟨head, ipv4, rest⟩ := read
  simp only at h hs htext
  have hcolons := htext.colons
  rw [if_pos rfl] at hcolons
  split_ifs at h with hlength hipv4
  · -- eight groups
    cases h
    rw [List.append_nil] at hs
    have hcount : 2 ≤ front.count ':' := by
      split_ifs at hcolons <;> omega
    refine ⟨⟨front, quad, hs, htext.chars, hcount, ?_⟩, .inr ?_⟩
    · cases ipv4 with
      | false => exact .inl (htext.plain rfl)
      | true =>
        refine .inr ⟨htext.isQuad rfl, (htext.joined rfl).resolve_left ?_⟩
        rintro ⟨-, rfl⟩
        simp at hcount
    · rw [hs]
      refine htext.digit ?_
      rintro rfl
      simp at hlength
  · -- the groups in front of `::` and behind it
    simp only [Option.bind_eq_bind, Option.bind_eq_some_iff, readGivenChar_eq_some] at h
    obtain ⟨s', rfl, s'', rfl, h⟩ := h
    obtain ⟨front', quad', hs', htext'⟩ := readGroups_eq (8 - (head.length + 1)) 0 s''
    generalize readGroups (8 - (head.length + 1)) 0 s'' = read at h hs' htext'
    obtain ⟨tail, ipv4', rest⟩ := read
    cases h
    rw [Bool.not_eq_true] at hipv4
    have hquad := htext.plain hipv4
    subst hquad
    simp only [List.append_nil, List.nil_append] at hs hs'
    have hjoin : literal = (front ++ (':' :: ':' :: front')) ++ quad' := by
      rw [hs, hs', List.append_assoc]
      rfl
    refine ⟨⟨_, quad', hjoin, ?_, ?_, ?_⟩, ?_⟩
    · intro c hc
      simp only [List.mem_append, List.mem_cons] at hc
      rcases hc with hc | rfl | rfl | hc
      · exact htext.chars c hc
      · exact .inr rfl
      · exact .inr rfl
      · exact htext'.chars c hc
    · rw [List.count_append, List.count_cons_self, List.count_cons_self]
      omega
    · cases ipv4' with
      | false => exact .inl (htext'.plain rfl)
      | true =>
        refine .inr ⟨htext'.isQuad rfl, ?_⟩
        rw [List.getLast?_append_of_ne_nil _ (by simp), List.getLast?_cons, List.getLast?_cons]
        rcases htext'.joined rfl with ⟨-, rfl⟩ | hlast
        · rfl
        · rw [hlast]
          rfl
    · rcases eq_or_ne head [] with rfl | hhead
      · have hfront := htext.eq_nil rfl
        rw [List.append_nil] at hfront
        subst hfront
        rcases eq_or_ne tail [] with rfl | htail
        · rw [List.append_eq_nil_iff.1 (htext'.eq_nil rfl) |>.1,
            List.append_eq_nil_iff.1 (htext'.eq_nil rfl) |>.2] at hjoin
          exact .inl hjoin
        · obtain ⟨c, hc, hdigit⟩ := htext'.digit htail
          exact .inr ⟨c, by rw [hs, hs']; simp_all, hdigit⟩
      · obtain ⟨c, hc, hdigit⟩ := htext.digit hhead
        rw [List.append_nil] at hc
        exact .inr ⟨c, by rw [hs]; exact List.mem_append_left _ hc, hdigit⟩

theorem shape_of_isIpv6 {literal : List Char} (h : isIpv6 literal = true) : Shape literal := by
  rw [isIpv6, parse, readIpAddr] at h
  cases hipv4 : readIpv4Addr literal with
  | some read =>
    obtain ⟨octets, r⟩ := read
    rw [hipv4] at h
    cases r <;> cases h
  | none =>
    rw [hipv4] at h
    cases hipv6 : readIpv6Addr literal with
    | none =>
      rw [hipv6] at h
      cases h
    | some read =>
      obtain ⟨groups, r⟩ := read
      rw [hipv6] at h
      cases r with
      | nil => exact shape_of_readIpv6Addr hipv6
      | cons c r => cases h

end Kyth.IpAddr
