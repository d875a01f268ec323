import Kyth.Lib.Boundary
import Kyth.Lib.IpAddr
import Kyth.Lib.Replace

/-!
# Scrubbing a report (`diagnostics_scrub.rs`)

`scrub_logs` replaces the matches of one pattern after the other: credentials, tokens of known formats,
identities, network addresses, paths, and at last the names of the host and of the user. The patterns
ask the Unicode tables what a word character is and what a digit is; the answers of the tables and the
names come from outside.
-/

namespace Kyth.Scrub

open Regex Regex.Pattern Str

/-- The Unicode tables behind `\w` and `\d`. On ASCII they are the letters, the digits and the
underscore; a digit is a word character, and so is the long s, which `(?i)` takes for an `s`. -/
structure Unicode where
  isWord : Char → Bool
  isDigit : Char → Bool
  isWord_ascii : ∀ c, c.toNat < 128 → isWord c = (isAsciiAlphanumeric c || c == '_')
  isDigit_ascii : ∀ c, c.toNat < 128 → isDigit c = isAsciiDigit c
  isWord_of_isDigit : ∀ c, isDigit c = true → isWord c = true
  isWord_longS : isWord 'ſ' = true

/-- What the process knows of its host and its user, and which names the regex crate makes a pattern
of. -/
structure Host where
  /-- `$HOSTNAME` -/
  hostname : Option (List Char)
  /-- `gethostname` -/
  kernelName : Option (List Char)
  /-- `$USER` -/
  user : Option (List Char)
  /-- `$USERNAME` -/
  username : Option (List Char)
  compiles : List Char → Bool

/-! ### Parts of patterns -/

/-- A character under `(?i)`. -/
def folded (c : Char) : Pattern :=
  chars fun d => d == c.toLower || d == c.toUpper || (c.toLower == 's' && d == 'ſ') ||
    (c.toLower == 'k' && d == '\u212a')

/-- A text under `(?i)`. -/
def anyCase (text : String) : Pattern := all (text.toList.map folded)

def text (s : String) : Pattern := literal s.toList

/-- One of some characters. -/
def among (s : String) : Pattern := chars fun c => s.toList.contains c

/-- None of some characters. -/
def noneOf (s : String) : Pattern := chars fun c => !s.toList.contains c

/-- A character that is neither white space nor one of some others. -/
def noSpaceOr (s : String) : Pattern := chars fun c => !(isWhitespace c || s.toList.contains c)

/-- `\s` -/
def space : Pattern := chars isWhitespace

/-- `\S` -/
def nonSpace : Pattern := chars fun c => !isWhitespace c

/-- `r{n,}` -/
def atLeast (n : ℕ) (r : Pattern) : Pattern := seq (times n r) (star r)

/-- `[A-Za-z]` -/
def isAsciiLetter (c : Char) : Bool := isAsciiAlphanumeric c && !isAsciiDigit c

/-- `[0-9A-Z]` -/
def isUpperOrDigit (c : Char) : Bool := isAsciiDigit c || (65 ≤ c.toNat && c.toNat ≤ 90)

/-- `\s*[:=]\s*` -/
def assigns : Pattern := all [star space, among ":=", star space]

/-- A rule that keeps nothing and always writes the same. -/
def constantRule (drop : Pattern) (written : String) : Rule := ⟨.empty, drop, fun _ => written.toList⟩

/-- A rule that writes a text behind what it keeps. -/
def behindRule (keep drop : Pattern) (written : String) : Rule := ⟨keep, drop, fun _ => written.toList⟩

/-! ### Credentials -/

def privateKey : Rule :=
  constantRule (all [text "-----BEGIN ", star (noneOf "-\r\n"), text "PRIVATE KEY-----",
    lazy (chars fun _ => true), text "-----END ", star (noneOf "-\r\n"), text "PRIVATE KEY-----"])
    "[private key redacted]"

def authValue : Rule :=
  behindRule (all [wordEdge, oneOf [anyCase "authorization", anyCase "proxy-authorization"], assigns])
    (all [oneOf [anyCase "bearer", anyCase "basic", anyCase "token"], plus space, plus nonSpace])
    "[redacted]"

def sensitiveHeader : Rule :=
  behindRule (all [wordEdge, oneOf [anyCase "authorization", anyCase "proxy-authorization",
      anyCase "cookie", anyCase "set-cookie", anyCase "x-auth-token"], assigns])
    (plus (noneOf "\r\n")) "[redacted]"

/-- `[_-]?` -/
def joint : Pattern := opt (among "_-")

/-- The names of the values that are secret. -/
def secretKey : Pattern :=
  oneOf [all [anyCase "access", joint, anyCase "token"], all [anyCase "refresh", joint, anyCase "token"],
    all [anyCase "id", joint, anyCase "token"], anyCase "bearer", anyCase "password", anyCase "passwd",
    anyCase "passphrase", all [anyCase "client", joint, anyCase "secret"],
    all [anyCase "api", joint, anyCase "key"], all [anyCase "private", joint, anyCase "key"],
    all [anyCase "auth", joint, anyCase "cookie"], all [anyCase "session", joint, anyCase "cookie"],
    anyCase "cookie", anyCase "secret"]

/-- A secret value in double quotes, in single quotes, or up to a blank or a separator. -/
def secretText : Pattern :=
  oneOf [all [text "\"", star (noneOf "\"\r\n"), text "\""],
    all [text "'", star (noneOf "'\r\n"), text "'"], plus (noSpaceOr ",;&")]

/-- What stands for a secret value: in the quotes of the value. -/
def redactedValue (value : List Char) : List Char :=
  match value with
  | '"' :: _ => "\"[redacted]\"".toList
  | '\'' :: _ => "'[redacted]'".toList
  | _ => "[redacted]".toList

def secretValue : Rule :=
  ⟨all [opt (among "\"'"), secretKey, opt (among "\"'"), assigns], secretText, redactedValue⟩

def secretFlag : Rule :=
  behindRule (all [text "--", oneOf [anyCase "cookie", anyCase "password", anyCase "passwd",
      anyCase "token", anyCase "client-secret", anyCase "api-key"], alt (text "=") (plus space)])
    (plus nonSpace) "[redacted]"

def secretQuery : Rule :=
  behindRule (all [among "?&", oneOf [anyCase "access_token", anyCase "refresh_token",
      anyCase "id_token", anyCase "token", anyCase "password", anyCase "passwd", anyCase "secret",
      anyCase "cookie", anyCase "api_key", anyCase "client_secret"], text "="])
    (plus (noSpaceOr "&#")) "[redacted]"

/-- `[a-z]` under `(?i)`. -/
def isSchemeLetter (c : Char) : Bool := isAsciiLetter c || c == 'ſ' || c == '\u212a'

def urlCredentials : Rule :=
  behindRule (all [wordEdge, chars isSchemeLetter,
      star (chars fun c => isSchemeLetter c || isAsciiDigit c || "+.-".toList.contains c), text "://"])
    (all [plus (noSpaceOr "/@:"), text ":", plus (noSpaceOr "/@"), text "@"])
    "[credentials-redacted]@"

/-! ### Tokens of known formats -/

def githubToken : Rule :=
  constantRule (alt
    (all [wordEdge, oneOf [text "ghp", text "gho", text "ghu", text "ghs", text "ghr"], text "_",
      atLeast 36 (chars fun c => isAsciiAlphanumeric c || c == '_'), wordEdge])
    (all [wordEdge, text "github_pat_", atLeast 80 (chars fun c => isAsciiAlphanumeric c || c == '_'),
      wordEdge])) "[github token redacted]"

def awsKey : Rule :=
  constantRule (all [wordEdge, oneOf [text "AKIA", text "ASIA"], times 16 (chars isUpperOrDigit),
    wordEdge]) "[aws key redacted]"

def slackToken : Rule :=
  constantRule (all [wordEdge, text "xox", among "baprs", text "-",
    atLeast 20 (chars fun c => isAsciiAlphanumeric c || c == '-'), wordEdge]) "[slack token redacted]"

def ageKey : Rule :=
  constantRule (all [wordEdge, text "AGE-SECRET-KEY-1", times 58 (chars isUpperOrDigit), wordEdge])
    "[age key redacted]"

/-! ### Identities -/

/-- The rules of the loop over names and serial numbers. -/
def identities : List Rule :=
  [constantRule (all [anyCase "hostname", among ":=", star space, plus nonSpace]) "hostname=redacted",
    constantRule (all [anyCase "serial", among ":=", star space, plus nonSpace]) "serial=redacted",
    constantRule (all [anyCase "Serial", star space, among ":=", star space, plus nonSpace])
      "Serial: [scrubbed]",
    constantRule (all [anyCase "SSID", among ":=", star space, plus nonSpace]) "SSID=redacted",
    constantRule (all [anyCase "SSID", star space, among ":=", star space, plus nonSpace])
      "SSID: [scrubbed]"]

/-! ### Addresses and paths -/

def hexDigit : Pattern := chars isAsciiHexdigit

def mac : Rule :=
  constantRule (seq (times 2 hexDigit) (times 5 (seq (text ":") (times 2 hexDigit))))
    "xx:xx:xx:xx:xx:xx"

variable (unicode : Unicode) (host : Host)

/-- `\d{1,3}` -/
def octet : Pattern := seq (chars unicode.isDigit) (upTo 2 (chars unicode.isDigit))

def ipv4 : Rule :=
  constantRule (all [wordEdge, octet unicode, times 3 (seq (text ".") (octet unicode)), wordEdge])
    "xxx.xxx.xxx.xxx"

/-- Hex digits and a colon behind them. -/
def group : Pattern := seq (star hexDigit) (chars (· == ':'))

/-- Whatever looks like an IPv6 address. Only what is parsed as one is replaced. -/
def ipv6Candidate : Rule :=
  ⟨.empty, seq (atLeast 2 group) (star hexDigit), fun candidate =>
    if IpAddr.isIpv6 candidate then "xxxx:xxxx:xxxx:xxxx::xxxx".toList else candidate⟩

def email : Rule :=
  constantRule (all [plus (chars fun c => isAsciiAlphanumeric c || "._%+-".toList.contains c), text "@",
    plus (chars fun c => isAsciiAlphanumeric c || ".-".toList.contains c), text ".",
    atLeast 2 (chars isAsciiLetter)]) "redacted@example.com"

def uuid : Rule :=
  constantRule (all [wordEdge, times 8 hexDigit, text "-", times 4 hexDigit, text "-", times 4 hexDigit,
    text "-", times 4 hexDigit, text "-", times 12 hexDigit, wordEdge])
    "xxxxxxxx-xxxx-xxxx-xxxx-xxxxxxxxxxxx"

def homePath : Rule :=
  behindRule (all [text "/", alt (text "var/home") (text "home"), text "/"]) (plus (noSpaceOr "/:"))
    "redacted"

/-! ### Names -/

/-- A name between word boundaries. -/
def nameRule (written : String) (name : List Char) : Rule :=
  constantRule (all [wordEdge, literal name, wordEdge]) written

def hostnamesToRedact : List (List Char) :=
  let names := host.hostname.toList.filter fun value => decide (2 < Boundary.byteLength value)
  names ++ host.kernelName.toList.filter fun name => !names.contains name

/-- `$USER` and `$USERNAME`, if they are longer than a byte. -/
def usernamesToRedact : List (List Char) :=
  (host.user.toList ++ host.username.toList).filter fun value => decide (1 < Boundary.byteLength value)

def hostRules : List Rule :=
  ((hostnamesToRedact host).filter host.compiles).map (nameRule "[hostname]")

def userRules : List Rule := ((usernamesToRedact host).filter host.compiles).map (nameRule "redacted")

/-- The rules that come before the one for IPv4 addresses. -/
def earlyRules : List Rule :=
  [privateKey, authValue, sensitiveHeader, secretValue, secretFlag, secretQuery, urlCredentials,
    githubToken, awsKey, slackToken, ageKey] ++ identities ++ [mac]

/-- The rules that come behind the one for IPv6 addresses. -/
def lateRules : List Rule := [email, uuid, homePath] ++ hostRules host ++ userRules host

/-- One pass after the other. -/
def applyRules (rules : List Rule) (report : List Char) : List Char :=
  rules.foldl (fun report rule => replaceAll unicode.isWord rule report) report

/-- `scrub_logs` -/
def scrubLogs (report : List Char) : List Char :=
  applyRules unicode (earlyRules ++ [ipv4 unicode, ipv6Candidate] ++ lateRules host) report

end Kyth.Scrub
