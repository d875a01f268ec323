import Kyth.Lib.Scan
import Kyth.Lib.SplitOnce
import Kyth.Lib.TextLines
import Kyth.Lib.Trim
import Kyth.Lib.Utf8
import Kyth.Lib.Utf8Text

/-!
# The SAML handoff (`system/vpn_saml.rs`)

After the sign-in in a browser the captured form is posted to the gateway, whose response carries a
cookie in a header or in an XML tag. `parse_saml_acs_response` writes it as a form, and
`parse_gp_saml_cookie` reads it again when the connection is made. `validate_saml_acs_url` decides where
the form may go.
-/

namespace Kyth.Vpn

open Str SplitOnce TextLines Trim Utf8Text

/-! ### Percent triples -/

/-- `hex` -/
def hex (value : UInt8) : Option UInt8 :=
  if 48 ≤ value ∧ value ≤ 57 then some (value - 48)
  else if 97 ≤ value ∧ value ≤ 102 then some (value - 97 + 10)
  else if 65 ≤ value ∧ value ≤ 70 then some (value - 65 + 10)
  else none

/-- A byte that begins no triple. A plus stands for a blank. -/
def plainByte (b : UInt8) : UInt8 := if b = 43 then 32 else b

/-- The loop of `percent_decode`. -/
def decodeBytes : List UInt8 → List UInt8
  | b :: first :: second :: rest =>
      if b = 37 then
        match hex first, hex second with
        | some high, some low => (high * 16 + low) :: decodeBytes rest
        | _, _ => plainByte b :: decodeBytes (first :: second :: rest)
      else plainByte b :: decodeBytes (first :: second :: rest)
  | b :: rest => plainByte b :: decodeBytes rest
  | [] => []

/-- `percent_decode` -/
def percentDecode (value : List Char) : List Char := Utf8.fromUtf8Lossy (decodeBytes (encode value))

def isUnreserved (b : UInt8) : Bool :=
  (65 ≤ b && b ≤ 90) || (97 ≤ b && b ≤ 122) || (48 ≤ b && b ≤ 57) ||
    b == 45 || b == 95 || b == 46 || b == 126

/-- A digit of `{:02X}`. -/
def upperDigit (n : ℕ) : Char := Char.ofNat (if n < 10 then 48 + n else 55 + n)

def formByte (b : UInt8) : List Char :=
  if isUnreserved b then [Char.ofNat b.toNat]
  else ['%', upperDigit (b.toNat / 16), upperDigit (b.toNat % 16)]

/-- `form_encode` -/
def formEncode (value : List Char) : List Char := (encode value).flatMap formByte

/-! ### Cookies -/

/-- A field name, its value and a user name. -/
abbrev Fields := List Char × List Char × List Char

def usernameKey : List Char := "saml-username".toList

/-- The names that `parse_gp_saml_cookie` looks for. -/
def cookieNames : List (List Char) :=
  ["preloginuserauthcookie".toList, "portal-userauthcookie".toList, "cas".toList,
    "prelogin-cookie".toList]

/-- A part of a cookie: its key and its value. -/
def cookiePart (part : List Char) : List Char × List Char :=
  let (key, value) := (splitOnce '=' part).getD (part, [])
  ((trimmed (percentDecode key)).map charLower, percentDecode value)

def isCookie (part : List Char × List Char) : Bool := cookieNames.contains part.1 && part.2 ≠ []

/-- `parse_gp_saml_cookie` -/
def parseGpSamlCookie (cookie : List Char) : Fields :=
  let raw := trimmed cookie
  if raw = [] then ([], [], [])
  else
    let values := (raw.splitOn '&').map cookiePart
    let username := values.foldl (fun username part => if part.1 = usernameKey then part.2 else username) []
    match values.find? isCookie with
    | some (key, value) => (key, value, username)
    | none =>
        match values.getLast?.filter isCookie with
        | some (key, value) => (key, value, username)
        | none => ("prelogin-cookie".toList, raw, username)

/-- `xml_tag`. Lower case keeps the positions. -/
def xmlTag (text tag : List Char) : Option (List Char) := do
  let lower := text.map charLower
  let opening := '<' :: tag ++ ['>']
  let closing := '<' :: '/' :: tag ++ ['>']
  let start := (← Scan.find opening lower) + opening.length
  let length ← Scan.find closing (lower.drop start)
  let value := trimmed ((text.drop start).take length)
  if value ≠ [] then some value else none

/-- The names that `parse_saml_acs_response` looks for, in this order. -/
def responseNames : List (List Char) :=
  ["prelogin-cookie".toList, "portal-userauthcookie".toList, "cas".toList,
    "preloginuserauthcookie".toList]

/-- The value of a header line with the given name. -/
def headerValue (name line : List Char) : Option (List Char) := do
  let (key, value) ← splitOnce ':' line
  if (trimmed key).map charLower = name.map charLower then some (trimmed value) else none

/-- The fields that are found under a name, in the headers or else in the body. -/
def fieldsNamed (headers body name : List Char) : Option Fields :=
  match (lines headers).findSome? fun line => (headerValue name line).filter (· ≠ []) with
  | some value => some (name, value, ((lines headers).findSome? (headerValue usernameKey)).getD [])
  | none => (xmlTag body name).map fun value => (name, value, (xmlTag body usernameKey).getD [])

def responseFields (headers body : List Char) : Option Fields :=
  responseNames.findSome? (fieldsNamed headers body)

/-- `{name}={}&saml-username={}` -/
def cookieText (fields : Fields) : List Char :=
  fields.1 ++ '=' :: formEncode fields.2.1 ++ '&' :: usernameKey ++ '=' :: formEncode fields.2.2

/-- `parse_saml_acs_response` -/
def parseSamlAcsResponse (headers body : List Char) : Option (List Char) :=
  (responseFields headers body).map cookieText

/-! ### Where the form goes -/

def https : List Char := "https://".toList

/-- The text in front of the first character that ends an authority. -/
def authorityOf (rest : List Char) : List Char := rest.takeWhile fun c => c ≠ '/' && c ≠ '?' && c ≠ '#'

def parsePort (raw : List Char) : Except String ℕ :=
  match parseUnsigned 16 raw with
  | some port => .ok port
  | none => .error "SAML URL has invalid port"

def isHostByte (c : Char) : Bool := isAsciiAlphanumeric c || c == '.' || c == '-' || c == '_'

/-- The host and the port of an authority. -/
def authorityOrigin (authority : List Char) : Except String (List Char × ℕ) :=
  if authority = [] ∨ '@' ∈ authority then .error "SAML URL has invalid authority"
  else if authority.head? = some '[' then
    match splitOnce ']' authority with
    | none => .error "SAML URL has invalid IPv6 host"
    | some (front, back) => do
        let host := (front.drop 1).map charLower
        let port ← match back.dropPrefix? [':'] with
          | some raw => parsePort raw
          | none => pure 443
        return (host, port)
  else
    let (host, port) := (rsplitOnce ':' authority).getD (authority, "443".toList)
    if host = [] ∨ host.all isHostByte = false then .error "SAML URL has invalid hostname"
    else do
      let port ← parsePort port
      return ((host.rdropWhile (· == '.')).map charLower, port)

/-- A gateway may be given without a scheme. -/
def gatewayUrl (gateway : List Char) : List Char :=
  if "://".toList <:+: gateway then gateway else https ++ gateway

/-- `origin` -/
def origin (value : List Char) (bareHost : Bool) : Except String (List Char × ℕ) :=
  let candidate := if bareHost then gatewayUrl value else value
  match candidate.dropPrefix? https with
  | none => .error "SAML URL must use HTTPS"
  | some rest => authorityOrigin (authorityOf rest)

/-- The path of the action URL, as `validate_saml_acs_url` takes it. -/
def acsPath (actionUrl : List Char) : List Char :=
  ((actionUrl.dropPrefix? https).bind fun rest =>
    (splitOnce '/' rest).map fun parts => parts.2.takeWhile fun c => c ≠ '?' && c ≠ '#').getD []

/-- `validate_saml_acs_url` -/
def validateSamlAcsUrl (actionUrl expectedGateway : List Char) : Except String Unit :=
  if '#' ∈ actionUrl then .error "SAML ACS destination must not contain a fragment"
  else if (acsPath actionUrl).rdropWhile (· == '/') ≠ "SAML20/SP/ACS".toList then
    .error "SAML ACS destination has an unexpected path"
  else do
    let target ← origin actionUrl false
    let gateway ← origin expectedGateway true
    if target ≠ gateway then .error "SAML ACS destination does not match the VPN gateway"
    else .ok ()

/-- `MAX_SAML_FORM_BYTES` -/
def maxSamlFormBytes : ℕ := 2 * 1024 * 1024

/-- `replay_saml_command`: the arguments of `curl` and its input. -/
def replaySamlCommand (actionUrl body expectedGateway : List Char) :
    Except String (List (List Char) × List UInt8) := do
  validateSamlAcsUrl actionUrl expectedGateway
  if maxSamlFormBytes < (encode body).length ∨
      ((body.splitOn '&').any fun part =>
        (splitOnce '=' part).any fun parts => parts.1 == "SAMLResponse".toList) = false then
    .error "SAML ACS form is invalid or too large"
  else
    .ok (["curl".toList, "--silent".toList, "--show-error".toList, "--fail-with-body".toList,
      "--include".toList, "--max-time".toList, "30".toList, "--connect-timeout".toList, "10".toList,
      "--max-redirs".toList, "0".toList, "--max-filesize".toList, "8388608".toList,
      "--proto".toList, "=https".toList, "--request".toList, "POST".toList, "--header".toList,
      "Content-Type: application/x-www-form-urlencoded".toList, "--header".toList,
      "User-Agent: PAN GlobalProtect".toList, "--data-binary".toList, "@-".toList, actionUrl],
      encode body)

end Kyth.Vpn
