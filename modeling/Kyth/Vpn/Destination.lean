import Kyth.Lib.Uri
import Kyth.Vpn.Saml

/-!
# Where the SAML form goes (`system/vpn_saml.rs`)

`validate_saml_acs_url` takes the authority and the path of the action URL by two splits of its own. They
agree with the generic grammar on most URLs: `meets_gateway_iff` says on which ones that are accepted.
-/

namespace Kyth.Vpn

open Str SplitOnce Uri

variable {text host gatewayHost inner back rest raw : List Char} {port readPort : ℕ}

/-! ### What the grammar says -/

/-- A host without the trailing dot that it may have. -/
def dropDot (host : List Char) : List Char := if host.getLast? = some '.' then host.dropLast else host

def SameHost (host gatewayHost : List Char) : Prop :=
  dropDot (host.map charLower) = dropDot (gatewayHost.map charLower)

/-- By the generic grammar the URL goes to the gateway and to the path for assertions. -/
def MeetsGateway (actionUrl gateway : List Char) : Prop :=
  ∃ rest gatewayRest, actionUrl = https ++ rest ∧ gatewayUrl gateway = https ++ gatewayRest ∧
    (∃ n, path rest = "/SAML20/SP/ACS".toList ++ List.replicate n '/') ∧
    ∃ host gatewayHost port, HostPort 443 (authority rest) host port ∧
      HostPort 443 (authority gatewayRest) gatewayHost port ∧ SameHost host gatewayHost

/-! ### Authorities that are accepted -/

/-- The host of an authority: up to the closing bracket, or up to the first colon. -/
def hostText (text : List Char) : List Char :=
  if text.head? = some '[' then text.takeWhile (· ≠ ']') ++ [']'] else text.takeWhile (· ≠ ':')

/-- What stands behind the host. -/
def behindHost (text : List Char) : List Char :=
  if text.head? = some '[' then (text.dropWhile (· ≠ ']')).drop 1 else text.dropWhile (· ≠ ':')

/-- Brackets enclose an address with nothing but a port behind, and the port has no sign. -/
structure Conventional (text : List Char) : Prop where
  literal : text.head? = some '[' → isIpLiteral ((hostText text).drop 1).dropLast = true
  behind : ∀ c ∈ (behindHost text).head?, c = ':'
  unsigned : ¬ [':', '+'] <+: behindHost text

/-- A port that is read behind a host. Text that no colon begins is passed over. -/
def PortTaken (back : List Char) (port : ℕ) : Prop :=
  (∃ raw, back = ':' :: raw ∧ parseUnsigned 16 raw = some port) ∨ back.head? ≠ some ':' ∧ port = 443

/-- An authority that `authorityOrigin` takes, with the host and the port that it makes of it. -/
inductive Taken : List Char → List Char → ℕ → Prop
  | literal {inner back : List Char} {port : ℕ} (hinner : ']' ∉ inner) (hport : PortTaken back port) :
      Taken ('[' :: inner ++ ']' :: back) (inner.map charLower) port
  | name {host back : List Char} {port : ℕ} (hne : host ≠ []) (hbytes : ∀ c ∈ host, isHostByte c = true)
      (hback : ∀ c ∈ back.head?, c = ':') (hport : PortTaken back port) :
      Taken (host ++ back) ((host.rdropWhile (· == '.')).map charLower) port

theorem parsePort_eq_ok : parsePort raw = .ok port ↔ parseUnsigned 16 raw = some port := by
  unfold parsePort
  cases parseUnsigned 16 raw with
  | none => simp
  | some n => simp

theorem taken_of_authorityOrigin {read : List Char} (h : authorityOrigin text = .ok (read, port)) :
    Taken text read port := by
  unfold authorityOrigin at h
  split_ifs at h with hinvalid hbracket
  · -- a host in brackets
    cases hsplit : splitOnce ']' text with
    | none =>
      rw [hsplit] at h
      cases h
    | some parts =>
      obtain ⟨front, back⟩ := parts
      rw [hsplit] at h
      obtain ⟨rfl, hfree⟩ := splitOnce_eq_some.1 hsplit
      obtain ⟨inner, rfl⟩ : ∃ inner, front = '[' :: inner := by
        cases front with
        | nil => cases hbracket
        | cons c inner =>
          cases hbracket
          exact ⟨inner, rfl⟩
      have hinner : ']' ∉ inner := fun hmem => hfree (List.mem_cons_of_mem _ hmem)
      cases hback : back.dropPrefix? [':'] with
      | none =>
        simp only [hback, pure_bind] at h
        cases h
        refine .literal hinner (.inr ⟨fun hcolon => ?_, rfl⟩)
        cases back with
        | nil => cases hcolon
        | cons c back =>
          cases hcolon
          have hcolon : (':' :: back).dropPrefix? [':'] = some back := dropPrefix?_eq_some.2 rfl
          rw [hback] at hcolon
          cases hcolon
      | some raw =>
        simp only [hback] at h
        cases hraw : parsePort raw with
        | error message =>
          rw [hraw] at h
          cases h
        | ok port =>
          rw [hraw] at h
          cases h
          exact .literal hinner (.inl ⟨raw, dropPrefix?_eq_some.1 hback, parsePort_eq_ok.1 hraw⟩)
  · -- any other host
    generalize hparts : (rsplitOnce ':' text).getD (text, "443".toList) = parts at h
    obtain ⟨host, raw⟩ := parts
    dsimp only at h
    split_ifs at h with hhost
    rw [not_or, Bool.not_eq_false, List.all_eq_true] at hhost
    cases hraw : parsePort raw with
    | error message =>
      rw [hraw] at h
      cases h
    | ok port =>
      rw [hraw] at h
      cases h
      rw [parsePort_eq_ok] at hraw
      cases hsplit : rsplitOnce ':' text with
      | none =>
        rw [hsplit] at hparts
        cases hparts
        rw [show parseUnsigned 16 "443".toList = some 443 by decide] at hraw
        cases hraw
        have htaken : Taken (text ++ []) _ 443 :=
          .name hhost.1 hhost.2 (by simp) (.inr ⟨by simp, rfl⟩)
        rwa [List.append_nil] at htaken
      | some parts =>
        rw [hsplit] at hparts
        cases hparts
        obtain ⟨rfl, -⟩ := rsplitOnce_eq_some.1 hsplit
        refine .name hhost.1 hhost.2 ?_ (.inl ⟨raw, rfl, hraw⟩)
        rintro c ⟨⟩
        rfl

/-! ### Reading them by the grammar -/

theorem parseDigits_iff (h : parseUnsigned 16 raw = some readPort) :
    parseDigits raw = some port ↔ ¬ ['+'] <+: raw ∧ port = readPort := by
  unfold parseUnsigned at h
  cases raw with
  | nil => cases h
  | cons c raw =>
    by_cases hplus : c = '+'
    · subst hplus
      have hsign : parseDigits ('+' :: raw) = none := by
        rw [parseDigits, if_neg]
        rintro ⟨-, hdigits⟩
        rw [List.all_cons, Bool.and_eq_true] at hdigits
        exact absurd hdigits.1 (by decide)
      rw [hsign]
      simp
    · have hdigits : parseDigits (c :: raw) = some readPort := by
        split at h
        · rename_i l heq
          exact absurd (List.cons.inj heq).1 hplus
        · exact (Option.filter_eq_some_iff.1 h).1
      rw [hdigits, Option.some.injEq]
      have hprefix : ¬ ['+'] <+: c :: raw := by
        rw [List.cons_prefix_cons]
        exact fun h => hplus h.1.symm
      rw [and_iff_right hprefix]
      exact eq_comm

theorem portBehind_iff (h : PortTaken back readPort) :
    PortBehind 443 back port ↔
      (∀ c ∈ back.head?, c = ':') ∧ ¬ [':', '+'] <+: back ∧ port = readPort := by
  rcases h with ⟨raw, rfl, hraw⟩ | ⟨hcolon, rfl⟩
  · rw [List.cons_prefix_cons, and_iff_right rfl, ← parseDigits_iff hraw]
    constructor
    · intro h
      cases h with
      | port h => exact ⟨by simp, h⟩
    · exact fun h => .port h.2
  · constructor
    · intro h
      cases h with
      | none => exact ⟨by simp, by simp, rfl⟩
      | port h => exact absurd rfl hcolon
    · rintro ⟨hhead, -, rfl⟩
      cases back with
      | nil => exact .none
      | cons c back =>
        rw [hhead c rfl] at hcolon
        exact absurd rfl hcolon

theorem isRegName_of_isHostByte (h : ∀ c ∈ host, isHostByte c = true) : isRegName host = true := by
  induction host with
  | nil => rfl
  | cons c host ih =>
    rw [List.forall_mem_cons] at h
    have hpercent : c ≠ '%' := by
      rintro rfl
      exact absurd h.1 (by decide)
    rw [isRegName_cons hpercent, ih h.2, Bool.and_true, Bool.or_eq_true]
    left
    have hbyte := h.1
    simp only [isHostByte, Uri.isUnreserved, Bool.or_eq_true] at hbyte ⊢
    tauto

theorem not_mem_of_isHostByte {c : Char} (hc : isHostByte c = false)
    (h : ∀ d ∈ host, isHostByte d = true) : c ∉ host := by
  intro hmem
  rw [h c hmem] at hc
  cases hc

theorem host_literal (hinner : ']' ∉ inner) (back : List Char) :
    hostText ('[' :: inner ++ ']' :: back) = '[' :: inner ++ [']'] ∧
      behindHost ('[' :: inner ++ ']' :: back) = back := by
  have hall : ∀ c ∈ '[' :: inner, decide (c ≠ ']') = true := by
    intro c hc
    rw [decide_eq_true_eq]
    rintro rfl
    exact hinner (List.mem_of_ne_of_mem (by decide) hc)
  have hhead : ('[' :: inner ++ ']' :: back).head? = some '[' := rfl
  rw [hostText, behindHost, if_pos hhead, if_pos hhead, List.takeWhile_append_of_pos hall,
    List.dropWhile_append_of_pos hall, List.takeWhile_cons_of_neg (by simp),
    List.dropWhile_cons_of_neg (by simp), List.append_nil]
  exact ⟨rfl, rfl⟩

theorem host_name (hne : host ≠ []) (hbytes : ∀ c ∈ host, isHostByte c = true)
    (hback : ∀ c ∈ back.head?, c = ':') :
    (host ++ back).head? ≠ some '[' ∧ hostText (host ++ back) = host ∧ behindHost (host ++ back) = back := by
  have hcolon : ':' ∉ host := not_mem_of_isHostByte (by decide) hbytes
  have hall : ∀ c ∈ host, decide (c ≠ ':') = true := by
    intro c hc
    rw [decide_eq_true_eq]
    rintro rfl
    exact hcolon hc
  have hhead : (host ++ back).head? ≠ some '[' := by
    obtain ⟨c, host, rfl⟩ := List.exists_cons_of_ne_nil hne
    rintro ⟨⟩
    exact absurd (hbytes '[' List.mem_cons_self) (by decide)
  refine ⟨hhead, ?_, ?_⟩
  · rw [hostText, if_neg hhead, List.takeWhile_append_of_pos hall]
    cases back with
    | nil => exact List.append_nil host
    | cons c back =>
      rw [hback c rfl, List.takeWhile_cons_of_neg (by simp), List.append_nil]
  · rw [behindHost, if_neg hhead, List.dropWhile_append_of_pos hall]
    cases back with
    | nil => rfl
    | cons c back => rw [hback c rfl, List.dropWhile_cons_of_neg (by simp)]

/-- The grammar reads an accepted authority exactly if it is conventional, and then alike. -/
theorem hostPort_iff {read : List Char} (h : Taken text read readPort) :
    HostPort 443 text host port ↔ Conventional text ∧ host = hostText text ∧ port = readPort := by
  cases h with
  | @literal inner back _ hinner hport =>
    obtain ⟨hhost, hbehind⟩ := host_literal hinner back
    rw [hostPort_literal_iff hinner, portBehind_iff hport, hhost]
    constructor
    · rintro ⟨hliteral, rfl, hhead, hsign, rfl⟩
      refine ⟨⟨fun _ => ?_, hbehind.symm ▸ hhead, hbehind.symm ▸ hsign⟩, rfl, rfl⟩
      rw [hhost]
      simpa using hliteral
    · rintro ⟨⟨hliteral, hhead, hsign⟩, rfl, rfl⟩
      have hinside := hliteral rfl
      rw [hhost] at hinside
      exact ⟨by simpa using hinside, rfl, hbehind ▸ hhead, hbehind ▸ hsign, rfl⟩
  | @name host' back _ hne hbytes hback hport =>
    obtain ⟨hbracket, hhost, hbehind⟩ := host_name hne hbytes hback
    have hbehind' : (host' ++ back).dropWhile (· ≠ ':') = back := by
      rw [behindHost, if_neg hbracket] at hbehind
      exact hbehind
    have hhost' : (host' ++ back).takeWhile (· ≠ ':') = host' := by
      rw [hostText, if_neg hbracket] at hhost
      exact hhost
    rw [hostPort_name_iff hbracket, hbehind', hhost', portBehind_iff hport, hhost]
    constructor
    · rintro ⟨-, -, rfl, hhead, hsign, rfl⟩
      exact ⟨⟨fun h => absurd h hbracket, hbehind.symm ▸ hhead, hbehind.symm ▸ hsign⟩, rfl, rfl⟩
    · rintro ⟨⟨-, hhead, hsign⟩, rfl, rfl⟩
      exact ⟨isRegName_of_isHostByte hbytes, hne, rfl, hback, hbehind ▸ hsign, rfl⟩

/-! ### Equal hosts -/

/-- The number of dots at the end of the host. -/
def dots (text : List Char) : ℕ := ((hostText text).rtakeWhile (· == '.')).length

/-- Only a letter changes in lower case. -/
theorem eq_of_charLower_eq {c d : Char} (hd : ¬ (97 ≤ d.toNat ∧ d.toNat ≤ 122)) (h : charLower c = d) :
    c = d := by
  by_cases hupper : 65 ≤ c.toNat ∧ c.toNat ≤ 90
  · have hletters : ∀ n < 26, 97 ≤ (charLower (Char.ofNat (65 + n))).toNat ∧
        (charLower (Char.ofNat (65 + n))).toNat ≤ 122 := by
      decide
    obtain ⟨n, hn⟩ := Nat.exists_eq_add_of_le hupper.1
    have hletter := hletters n (by omega)
    rw [← hn, Char.ofNat_toNat, h] at hletter
    exact absurd hletter hd
  · rwa [charLower, if_neg hupper] at h

theorem not_mem_map_charLower {c : Char} (hc : ¬ (97 ≤ c.toNat ∧ c.toNat ≤ 122)) (h : c ∉ host) :
    c ∉ host.map charLower := by
  intro hmem
  obtain ⟨d, hd, hlower⟩ := List.mem_map.1 hmem
  rw [eq_of_charLower_eq hc hlower] at hd
  exact h hd

theorem dropDot_append {front : List Char} (h : front.getLast? ≠ some '.') (n : ℕ) :
    dropDot (front ++ List.replicate n '.') = front ++ List.replicate (n - 1) '.' := by
  cases n with
  | zero => rw [List.replicate_zero, List.append_nil, dropDot, if_neg h]
  | succ n =>
    rw [List.replicate_succ', ← List.append_assoc, dropDot, if_pos List.getLast?_concat,
      List.dropLast_concat, Nat.add_sub_cancel]

theorem dropDot_name (host : List Char) :
    dropDot (host.map charLower) = (host.rdropWhile (· == '.')).map charLower ++
      List.replicate ((host.rtakeWhile (· == '.')).length - 1) '.' := by
  have htail : (host.rtakeWhile (· == '.')).map charLower =
      List.replicate (host.rtakeWhile (· == '.')).length '.' := by
    rw [List.eq_replicate_iff]
    refine ⟨List.length_map _, fun c hc => ?_⟩
    obtain ⟨d, hd, rfl⟩ := List.mem_map.1 hc
    have hdot : (d == '.') = true := List.mem_rtakeWhile_imp (p := (· == '.')) hd
    rw [beq_iff_eq.1 hdot]
    rfl
  have hlast : ((host.rdropWhile (· == '.')).map charLower).getLast? ≠ some '.' := by
    intro h
    rw [List.getLast?_map, Option.map_eq_some_iff] at h
    obtain ⟨d, hd, hlower⟩ := h
    have hne : host.rdropWhile (· == '.') ≠ [] := by
      intro hnil
      rw [hnil] at hd
      cases hd
    refine List.rdropWhile_last_not _ _ hne ?_
    rw [List.getLast?_eq_some_getLast hne, Option.some.injEq] at hd
    rw [beq_iff_eq, hd]
    exact eq_of_charLower_eq (by decide) hlower
  have hmap : host.map charLower = (host.rdropWhile (· == '.')).map charLower ++
      List.replicate (host.rtakeWhile (· == '.')).length '.' := by
    rw [← htail, ← List.map_append, List.rdropWhile_append_rtakeWhile]
  rw [hmap, dropDot_append hlast]

theorem dropDot_literal (inner : List Char) :
    dropDot (('[' :: inner ++ [']']).map charLower) = '[' :: inner.map charLower ++ [']'] := by
  have hmap : ('[' :: inner ++ [']']).map charLower = '[' :: inner.map charLower ++ [']'] := by
    rw [List.map_append]
    rfl
  rw [hmap, dropDot, if_neg]
  rw [List.getLast?_concat]
  decide

/-- What an accepted authority makes of its host. -/
theorem Taken.dropDot_hostText {read : List Char} (h : Taken text read port) :
    text.head? = some '[' ∧ dots text = 0 ∧
        dropDot ((hostText text).map charLower) = '[' :: read ++ [']'] ∨
      text.head? ≠ some '[' ∧ '[' ∉ read ∧
        dropDot ((hostText text).map charLower) = read ++ List.replicate (dots text - 1) '.' := by
  cases h with
  | @literal inner back _ hinner hport =>
    obtain ⟨hhost, -⟩ := host_literal hinner back
    refine .inl ⟨rfl, ?_, ?_⟩
    · rw [dots, hhost, List.rtakeWhile_concat_neg _ _ _ (by decide), List.length_nil]
    · rw [hhost, dropDot_literal]
  | @name host back _ hne hbytes hback hport =>
    obtain ⟨hbracket, hhost, -⟩ := host_name hne hbytes hback
    refine .inr ⟨hbracket, ?_, ?_⟩
    · refine not_mem_map_charLower (by decide) fun hmem => ?_
      have hbyte := hbytes _ ((List.rdropWhile_prefix _ host).subset hmem)
      exact absurd hbyte (by decide)
    · rw [dots, hhost, dropDot_name]

/-- Equal readings are of the same host if both or none are in brackets and the dots agree. -/
theorem sameHost_iff {text' read : List Char} {port' : ℕ} (h : Taken text read port)
    (h' : Taken text' read port') :
    SameHost (hostText text) (hostText text') ↔
      (text.head? = some '[' ↔ text'.head? = some '[') ∧
        (dots text = dots text' ∨ dots text ≤ 1 ∧ dots text' ≤ 1) := by
  have hmixed : ∀ n, '[' ∉ read → '[' :: read ++ [']'] ≠ read ++ List.replicate n '.' := by
    intro n hfree heq
    have hmem : '[' ∈ read ++ List.replicate n '.' := heq ▸ by simp
    rcases List.mem_append.1 hmem with h | h
    · exact hfree h
    · exact absurd (List.eq_of_mem_replicate h) (by decide)
  rw [SameHost]
  rcases h.dropDot_hostText with ⟨hbracket, hdots, hhost⟩ | ⟨hbracket, hfree, hhost⟩
  · rcases h'.dropDot_hostText with ⟨hbracket', hdots', hhost'⟩ | ⟨hbracket', hfree', hhost'⟩
    · simp [hhost, hhost', hbracket, hbracket', hdots, hdots']
    · rw [hhost, hhost']
      refine iff_of_false (hmixed _ hfree') fun h => hbracket' (h.1.1 hbracket)
  · rcases h'.dropDot_hostText with ⟨hbracket', hdots', hhost'⟩ | ⟨hbracket', hfree', hhost'⟩
    · rw [hhost, hhost']
      exact iff_of_false (hmixed _ hfree).symm fun h => hbracket (h.1.2 hbracket')
    · rw [hhost, hhost', List.append_cancel_left_eq, List.replicate_left_inj,
        and_iff_right (iff_of_false hbracket hbracket')]
      omega

/-! ### The path -/

def assertionPath : List Char := "SAML20/SP/ACS".toList

/-- A question mark in front of the first slash ends the authority and leaves no path. -/
theorem path_iff (hfragment : '#' ∉ rest)
    (hpath : (acsPath (https ++ rest)).rdropWhile (· == '/') = assertionPath) :
    (∃ n, path rest = "/SAML20/SP/ACS".toList ++ List.replicate n '/') ↔
      '?' ∉ rest.takeWhile (· ≠ '/') := by
  rw [acsPath, dropPrefix?_eq_some.2 rfl, Option.bind_some] at hpath
  cases hsplit : splitOnce '/' rest with
  | none =>
    rw [hsplit] at hpath
    exact absurd hpath (by decide)
  | some parts =>
    obtain ⟨front, back⟩ := parts
    obtain ⟨rfl, hslash⟩ := splitOnce_eq_some.1 hsplit
    rw [hsplit, Option.map_some, Option.getD_some] at hpath
    have hfree : ∀ c ∈ front, c ≠ '/' ∧ c ≠ '#' := by
      intro c hc
      constructor
      · rintro rfl
        exact hslash hc
      · rintro rfl
        exact hfragment (List.mem_append_left _ hc)
    have hfront : (front ++ '/' :: back).takeWhile (· ≠ '/') = front := by
      rw [List.takeWhile_append_of_pos fun c hc => decide_eq_true (hfree c hc).1,
        List.takeWhile_cons_of_neg (by simp), List.append_nil]
    rw [hfront]
    constructor
    · rintro ⟨n, hn⟩ hquestion
      obtain ⟨before, after, rfl, hbefore⟩ := List.eq_append_cons_of_mem hquestion
      have hall : ∀ c ∈ before, (c ≠ '/' && c ≠ '?' && c ≠ '#') = true := by
        intro c hc
        have hc' := hfree c (by simp [hc])
        have hne : c ≠ '?' := by
          rintro rfl
          exact hbefore hc
        simp [hc', hne]
      rw [path, List.append_assoc, List.dropWhile_append_of_pos hall, List.cons_append,
        List.dropWhile_cons_of_neg (by simp), List.takeWhile_cons_of_neg (by simp)] at hn
      exact absurd hn.symm (by simp)
    · intro hquestion
      have hall : ∀ c ∈ front, (c ≠ '/' && c ≠ '?' && c ≠ '#') = true := by
        intro c hc
        have hne : c ≠ '?' := by
          rintro rfl
          exact hquestion hc
        simp [hfree c hc, hne]
      rw [path, List.dropWhile_append_of_pos hall, List.dropWhile_cons_of_neg (by simp),
        List.takeWhile_cons_of_pos (by simp)]
      generalize back.takeWhile (fun c => c ≠ '?' && c ≠ '#') = taken at hpath
      refine ⟨(taken.rtakeWhile (· == '/')).length, ?_⟩
      have htail : taken.rtakeWhile (· == '/') =
          List.replicate (taken.rtakeWhile (· == '/')).length '/' := by
        rw [List.eq_replicate_iff]
        exact ⟨rfl, fun c hc => beq_iff_eq.1 (List.mem_rtakeWhile_imp (p := (· == '/')) hc)⟩
      rw [← htail]
      have hwhole : taken.rdropWhile (· == '/') ++ taken.rtakeWhile (· == '/') = taken :=
        List.rdropWhile_append_rtakeWhile
      rw [hpath] at hwhole
      have hslashed : "/SAML20/SP/ACS".toList = '/' :: assertionPath := by decide
      rw [hslashed, List.cons_append, hwhole]

/-! ### Accepted URLs -/

theorem origin_eq_ok {value : List Char} {bareHost : Bool} {found : List Char × ℕ}
    (h : origin value bareHost = .ok found) :
    ∃ rest, (if bareHost then gatewayUrl value else value) = https ++ rest ∧
      Taken (authority rest) found.1 found.2 := by
  unfold origin at h
  dsimp only at h
  cases hrest : (if bareHost then gatewayUrl value else value).dropPrefix? https with
  | none =>
    rw [hrest] at h
    cases h
  | some rest =>
    rw [hrest] at h
    exact ⟨rest, dropPrefix?_eq_some.1 hrest, taken_of_authorityOrigin h⟩

theorem of_validateSamlAcsUrl {actionUrl gateway : List Char}
    (h : validateSamlAcsUrl actionUrl gateway = .ok ()) :
    ∃ rest gatewayRest read port, actionUrl = https ++ rest ∧ gatewayUrl gateway = https ++ gatewayRest ∧
      '#' ∉ rest ∧ (acsPath (https ++ rest)).rdropWhile (· == '/') = assertionPath ∧
      Taken (authority rest) read port ∧ Taken (authority gatewayRest) read port := by
  unfold validateSamlAcsUrl at h
  split_ifs at h with hfragment hpath
  cases htarget : origin actionUrl false with
  | error message =>
    rw [htarget] at h
    cases h
  | ok target =>
    cases hgateway : origin gateway true with
    | error message =>
      rw [htarget, hgateway] at h
      cases h
    | ok found =>
      simp only [htarget, hgateway, bind, Except.bind] at h
      split_ifs at h with hne
      rw [not_not] at hne hpath
      subst hne
      obtain ⟨rest, hrest, htaken⟩ := origin_eq_ok htarget
      obtain ⟨gatewayRest, hgatewayRest, hgatewayTaken⟩ := origin_eq_ok hgateway
      obtain rfl : actionUrl = https ++ rest := hrest
      exact ⟨rest, gatewayRest, _, _, rfl, hgatewayRest,
        fun hmem => hfragment (List.mem_append_right _ hmem), hpath, htaken, hgatewayTaken⟩

/-- The splits of the code agree with the grammar on the URL and on the gateway. -/
structure AgreesWithGrammar (rest gatewayRest : List Char) : Prop where
  question : '?' ∉ rest.takeWhile (· ≠ '/')
  target : Conventional (authority rest)
  gateway : Conventional (authority gatewayRest)
  brackets : (authority rest).head? = some '[' ↔ (authority gatewayRest).head? = some '['
  dots : dots (authority rest) = dots (authority gatewayRest) ∨
    dots (authority rest) ≤ 1 ∧ dots (authority gatewayRest) ≤ 1

/-- An accepted URL goes where the grammar says exactly if the splits of the code agree with it. -/
theorem meets_gateway_iff (actionUrl gateway : List Char)
    (h : validateSamlAcsUrl actionUrl gateway = .ok ()) :
    MeetsGateway actionUrl gateway ↔
      AgreesWithGrammar (actionUrl.drop https.length) ((gatewayUrl gateway).drop https.length) := by
  obtain ⟨rest, gatewayRest, read, port, rfl, hgateway, hfragment, hpath, htaken, hgatewayTaken⟩ :=
    of_validateSamlAcsUrl h
  rw [hgateway, List.drop_left, List.drop_left]
  constructor
  · rintro ⟨rest', gatewayRest', hrest, hgatewayRest, hn, host, gatewayHost, port', hhost, hgatewayHost,
      hsame⟩
    obtain rfl := List.append_cancel_left hrest
    rw [hgateway] at hgatewayRest
    obtain rfl := List.append_cancel_left hgatewayRest
    obtain ⟨hconventional, rfl, rfl⟩ := (hostPort_iff htaken).1 hhost
    obtain ⟨hconventional', rfl, -⟩ := (hostPort_iff hgatewayTaken).1 hgatewayHost
    obtain ⟨hbrackets, hdots⟩ := (sameHost_iff htaken hgatewayTaken).1 hsame
    exact ⟨(path_iff hfragment hpath).1 hn, hconventional, hconventional', hbrackets, hdots⟩
  · rintro ⟨hquestion, hconventional, hconventional', hbrackets, hdots⟩
    exact ⟨rest, gatewayRest, rfl, hgateway, (path_iff hfragment hpath).2 hquestion, _, _, port,
      (hostPort_iff htaken).2 ⟨hconventional, rfl, rfl⟩,
      (hostPort_iff hgatewayTaken).2 ⟨hconventional', rfl, rfl⟩,
      (sameHost_iff htaken hgatewayTaken).2 ⟨hbrackets, hdots⟩⟩

/-- A URL of the gateway is accepted and goes there. -/
theorem meets_gateway_vpn : MeetsGateway "https://VPN.example:443/SAML20/SP/ACS/".toList "vpn.example.".toList := by
  refine (meets_gateway_iff _ _ (by decide)).2 ⟨by decide, ⟨by decide, fun c hc => ?_, by decide⟩,
    ⟨by decide, fun c hc => ?_, by decide⟩, by decide, by decide⟩
  · have hhead : (behindHost (authority "VPN.example:443/SAML20/SP/ACS/".toList)).head? = some ':' := by decide
    exact (Option.some.inj (hhead.symm.trans hc)).symm
  · have hhead : (behindHost (authority "vpn.example.".toList)).head? = none := by decide
    cases hhead.symm.trans hc

/-- A question mark in front of the path: the URL is accepted and has no path. -/
theorem question_leaves_no_path :
    validateSamlAcsUrl "https://vpn.example?x/SAML20/SP/ACS".toList "vpn.example".toList = .ok () ∧
      ¬ MeetsGateway "https://vpn.example?x/SAML20/SP/ACS".toList "vpn.example".toList := by
  refine ⟨by decide, ?_⟩
  rintro ⟨rest, -, hrest, -, ⟨n, hn⟩, -⟩
  have hurl : "https://vpn.example?x/SAML20/SP/ACS".toList =
      https ++ "vpn.example?x/SAML20/SP/ACS".toList := by
    decide
  rw [hurl] at hrest
  obtain rfl := List.append_cancel_left hrest
  have hpath : path "vpn.example?x/SAML20/SP/ACS".toList = [] := by decide
  rw [hpath] at hn
  exact absurd hn.symm (by simp)

end Kyth.Vpn
