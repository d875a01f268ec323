import Kyth.Guardian.History
import Kyth.Lib.Boundary
import Kyth.Lib.Faults
import Kyth.Lib.Str
import Kyth.Lib.TextLines
import Kyth.Lib.Utf8

/-!
# Running a repair (`guardian.rs`, `network_preset.rs`, `storage_maintenance.rs`)

`execute_recipe` behind its gate: the commands of a recipe, the check that the repair worked and the
record of the execution. A command answers with an exit status and two streams of bytes, and
`run_command` makes one text of them, which it cuts at 400 bytes; a cut inside a character panics.
The host that answers is arbitrary. `execution_recorded_iff` says when an execution is recorded.
-/

namespace Kyth.Guardian

open Action Boundary Str

/-! ### Commands -/

/-- What a bounded command comes back with. -/
inductive CommandAnswer
  | timedOut
  | failed
  | exited (success : Bool) (stdout stderr : List UInt8)

/-- A command that ran, and whether `run_command` made a text of its output. -/
structure Ran where
  argv : List String
  reported : Bool
  answer : CommandAnswer

/-- The end of a run that slices a text inside a character. -/
inductive Panic
  | insideCharacter

/-- The fields of `NetworkPreset` that an executor reads. -/
structure NetworkPreset where
  dns : String := "quad9"
  vpnDnsExclusive : Bool := false

/-- What a repair finds outside: the answers to its commands, which may depend on the ones before,
the network preset and the mount points that exist. -/
structure Host where
  answer : List Ran → List String → CommandAnswer
  preset : NetworkPreset := {}
  pathExists : String → Bool := fun _ => true

/-- A run that keeps the commands that it ran. -/
abbrev Act (α : Type) := Action (List Ran) Panic α

/-- A run that may also return an error of its own. -/
abbrev Repair (α : Type) := ExceptT String (Action (List Ran) Panic) α

/-- `run_bounded`. -/
def runBounded (host : Host) (reported : Bool) (argv : List String) : Act CommandAnswer := fun log =>
  let answer := if argv = [] then .failed else host.answer log argv
  (.ok answer, log ++ [⟨argv, reported, answer⟩])

/-- `str::trim` on a list of characters. -/
def trimText (text : List Char) : List Char :=
  ((text.dropWhile isWhitespace).reverse.dropWhile isWhitespace).reverse

/-- The text of an output: what the command wrote to its standard error, or else to its standard
output. -/
def commandDetail (stdout stderr : List UInt8) : List Char :=
  let err := trimText (Utf8.fromUtf8Lossy stderr)
  if err = [] then trimText (Utf8.fromUtf8Lossy stdout) else err

/-- The bytes that a detail keeps. -/
def detailBytes : ℕ := 400

/-- What `run_command` makes of an answer. -/
def commandResult : CommandAnswer → Repair String
  | .timedOut => throw "repair timed out"
  | .failed => throw "repair failed to start"
  | .exited success stdout stderr =>
      match truncate (commandDetail stdout stderr) detailBytes with
      | none => ExceptT.lift fun log => (.error .insideCharacter, log)
      | some detail =>
          if success then return if detail = [] then "done" else String.ofList detail
          else throw (if detail = [] then "repair failed" else String.ofList detail)

/-- `run_command`. -/
def runCommand (host : Host) (argv : List String) : Repair String := do
  commandResult (← ExceptT.lift (runBounded host true argv))

/-- `run_ok`. -/
def runOk (host : Host) (argv : List String) : Repair Unit := do
  let _ ← runCommand host argv

/-- `run_ok` whose outcome is not looked at, or only for success. -/
def tryOk (host : Host) (argv : List String) : Repair Bool := do
  let outcome ← ExceptT.lift (runOk host argv).run
  return outcome.isOk

/-! ### VPN links -/

/-- The lines of an output without blanks at their ends. -/
def trimmedLines (output : String) : List String :=
  (TextLines.lines output.toList).map fun line => String.ofList (trimText line)

/-- The name in `Link <index> (<name>):`, from what follows `Link `. -/
def linkName (rest : String) : String :=
  String.ofList (trimText ((rest.toList.splitOnP fun c => c == '(' || c == ')')[1]?.getD []))

/-- `vpn_tunnel_links`. -/
def vpnTunnelLinks (output : String) : List String :=
  let links := (trimmedLines output).filterMap fun line =>
    (stripPrefix line "Link ").bind fun rest =>
      let name := linkName rest
      if startsWith name "tun" || startsWith name "wg" || startsWith name "tailscale" ||
        startsWith name "ppp" then some name else none
  (links.mergeSort fun a b => decide (a ≤ b)).dedup

/-- The loop of `vpn_dns_leaks`, which knows the link of the line. -/
def vpnDnsLeaksFrom (links : List String) (current : String) : List String → List (String × String)
  | [] => []
  | line :: lines =>
      match stripPrefix line "Link " with
      | some rest => vpnDnsLeaksFrom links (linkName rest) lines
      | none =>
          match stripPrefix line "DNS Servers:" with
          | some servers =>
              (if current ∈ links then []
              else (TextLines.words servers.toList).map fun server =>
                (current, String.ofList server)) ++ vpnDnsLeaksFrom links current lines
          | none => vpnDnsLeaksFrom links current lines

/-- `vpn_dns_leaks`. -/
def vpnDnsLeaks (output : String) (links : List String) : List (String × String) :=
  vpnDnsLeaksFrom links "" (trimmedLines output)

/-- `check_vpn_dns_leak_output`. -/
def checkVpnDnsLeakOutput (output : String) : Except String String :=
  let links := vpnTunnelLinks output
  if links = [] then .ok "no VPN tunnel link up; nothing to leak"
  else
    let leaks := vpnDnsLeaks output links
    if leaks = [] then .ok ("VPN DNS clean on " ++ ",".intercalate links)
    else
      .error ("VPN DNS leak: non-tunnel resolvers in use: " ++
        " ".intercalate (leaks.map fun leak => leak.1 ++ "=" ++ leak.2))

/-- `check_vpn_dns_leak_live`. -/
def checkVpnDnsLeakLive (host : Host) : Repair String := do
  let output ← (runCommand host ["resolvectl", "status"]).adapt fun _ => "resolvectl unavailable"
  match checkVpnDnsLeakOutput output with
  | .ok detail => return detail
  | .error _ => throw "VPN DNS leak detected"

/-- `dns_ip`. -/
def dnsIp (preset : NetworkPreset) : String :=
  if preset.dns = "cloudflare" then "1.1.1.1"
  else if preset.dns = "google" then "8.8.8.8"
  else if preset.dns = "off" then ""
  else "9.9.9.9"

/-- `vpn_exclusive_dns_argv`. -/
def vpnExclusiveDnsArgv (preset : NetworkPreset) (link vpnDns : String) : List String :=
  if preset.vpnDnsExclusive = false ∨ link = "" ∨ vpnDns = "" then []
  else ["resolvectl", "dns", link, vpnDns]

/-- `vpn_exclusive_domain_argv`. -/
def vpnExclusiveDomainArgv (preset : NetworkPreset) (link : String) : List String :=
  if preset.vpnDnsExclusive = false ∨ link = "" then []
  else ["resolvectl", "domain", link, "~."]

/-- `apply_vpn_dns_exclusive_live`. -/
def applyVpnDnsExclusiveLive (host : Host) : Repair String := do
  if host.preset.vpnDnsExclusive = false then
    throw "VPN DNS exclusivity is Hub opt-in; refusing to rewrite link DNS unasked"
  else
    let output ← (runCommand host ["resolvectl", "status"]).adapt fun _ => "resolvectl unavailable"
    let links := vpnTunnelLinks output
    if links = [] then throw "no VPN tunnel link found"
    else if dnsIp host.preset = "" then throw "DNS preset is off; nothing to pin"
    else
      links.forM fun link =>
        [vpnExclusiveDnsArgv host.preset link (dnsIp host.preset),
          vpnExclusiveDomainArgv host.preset link].forM fun argv =>
            (runOk host argv).adapt fun _ =>
              "resolvectl link update failed; pinning VPN DNS needs admin privilege — run with " ++
                "authentication"
      return "VPN DNS pinned on " ++ ",".intercalate links

/-! ### Executors -/

/-- `EXECUTOR_ONLY`. -/
def executorOnly : List String :=
  ["display.reconfigure", "audio.sink-fallback", "power.profile-fix", "network.dns-flush",
    "network.captive-fix", "network.vpn-fix", "network.vpn-dns-leak-check",
    "network.vpn-dns-exclusive", "controller.repair", "portal.restart-user", "firmware.refresh",
    "storage.maint"]

/-- The executor of `audio.sink-fallback`. -/
def sinkFallback (host : Host) : Repair String := do
  let output ← runCommand host ["pactl", "list", "short", "sinks"]
  let names := (TextLines.lines output.toList).filterMap fun line =>
    (TextLines.words line)[1]?.map String.ofList
  match names.find? fun name => !contains name "auto_null" && name != "@DEFAULT_SINK@" with
  | none => throw "no usable audio sink"
  | some sink =>
      runOk host ["pactl", "set-default-sink", sink]
      return "default sink set to " ++ sink

/-- The executor of `network.captive-fix`. -/
def captiveFix (host : Host) : Repair String := do
  runOk host ["nmcli", "networking", "off"]
  if ← tryOk host ["nmcli", "networking", "on"] then return "networking re-toggled"
  else
    let _ ← tryOk host ["nmcli", "networking", "on"]
    throw "failed to re-enable networking"

/-- `rsplitn(3, ':')` on a line of `nmcli`: what is automatic, the kind and the name. -/
def connectionFields (line : List Char) : String × String × String :=
  match (line.splitOn ':').reverse with
  | auto :: kind :: rest =>
      (String.ofList auto, String.ofList kind,
        String.ofList ((List.intersperse [':'] rest.reverse).flatten))
  | [auto] => (String.ofList auto, "", "")
  | [] => ("", "", "")

/-- The loop of `network.vpn-fix`. -/
def bringUpVpn (host : Host) : List (List Char) → Repair String
  | [] => throw "no always-on VPN needed reconnecting"
  | line :: lines => do
      let (auto, kind, name) := connectionFields line
      if kind = "vpn" ∧ auto = "yes" ∧ name ≠ "" then
        runOk host ["nmcli", "connection", "up", name]
        return "brought up VPN " ++ name
      else bringUpVpn host lines

/-- The executor of `network.vpn-fix`. -/
def vpnFix (host : Host) : Repair String := do
  let listed ← runCommand host ["nmcli", "-t", "-f", "NAME,TYPE,AUTOCONNECT", "connection", "show"]
  bringUpVpn host (TextLines.lines listed.toList)

/-- The executor of `firmware.refresh`. -/
def firmwareRefresh (host : Host) : Repair String := do
  if ← tryOk host ["flock", "-w", "10", "/run/kyth-fwupd.lock", "fwupdmgr", "refresh", "--force"] then
    return "firmware metadata refreshed"
  else
    runOk host ["fwupdmgr", "refresh", "--force"]
    return "firmware metadata refreshed"

/-- `maintenance_output_complete`. -/
def maintenanceOutputComplete (output : String) : Bool :=
  trim output == "Storage maintenance complete."

/-- `run_executor`. -/
def runExecutor (host : Host) : String → Repair String
  | "display.reconfigure" => do
      let _ ← tryOk host ["systemctl", "--user", "restart", "plasma-kscreen.service"]
      runOk host ["kscreen-doctor", "-o"]
      return "display outputs refreshed"
  | "audio.sink-fallback" => sinkFallback host
  | "power.profile-fix" => do
      runOk host ["powerprofilesctl", "set", "balanced"]
      return "power profile set to balanced"
  | "network.dns-flush" => do
      if ← tryOk host ["resolvectl", "flush-caches"] then return "flushed DNS caches"
      else if ← tryOk host ["systemd-resolve", "--flush-caches"] then return "flushed DNS caches"
      else throw "DNS cache flush unavailable"
  | "network.captive-fix" => captiveFix host
  | "network.vpn-fix" => vpnFix host
  | "network.vpn-dns-leak-check" => checkVpnDnsLeakLive host
  | "network.vpn-dns-exclusive" => applyVpnDnsExclusiveLive host
  | "controller.repair" => do
      runOk host ["sudo", "-A", "systemctl", "restart", "joycond.service"]
      return "joycond restarted"
  | "portal.restart-user" => do
      runOk host ["systemctl", "--user", "restart", "xdg-desktop-portal.service"]
      let _ ← tryOk host ["systemctl", "--user", "restart", "plasma-xdg-desktop-portal-kde.service"]
      return "desktop portals restarted"
  | "firmware.refresh" => firmwareRefresh host
  | "storage.maint" => do
      let output ← runCommand host ["/usr/bin/kyth-btrfs-maint"]
      if maintenanceOutputComplete output then return "storage maintenance complete"
      else throw output
  | _ => throw notEligible

/-! ### Verification -/

/-- `scrub_status_clean`. No letter outside ASCII has a small letter that the three words need. -/
def scrubStatusClean (output : String) : Bool :=
  let lower := toAsciiLowercase output
  contains lower "finished" && contains lower "no errors" && !contains lower "running"

/-- The loop of `maint_verified`. -/
def maintVerifiedFrom (host : Host) (checked : Bool) : List String → Act Bool
  | [] => pure checked
  | mount :: mounts =>
      if host.pathExists mount then do
        match ← runBounded host false ["btrfs", "scrub", "status", mount] with
        | .exited true stdout _ =>
            if scrubStatusClean (String.ofList (Utf8.fromUtf8Lossy stdout)) then
              maintVerifiedFrom host true mounts
            else pure false
        | _ => pure false
      else maintVerifiedFrom host checked mounts

/-- `maint_verified`. -/
def maintVerified (host : Host) : Act Bool := maintVerifiedFrom host false ["/", "/home", "/var"]

/-- The command that tells whether a recipe worked. -/
def verification (recipeId : String) : List String :=
  match recipeId with
  | "audio.sink-fallback" => ["pactl", "get-default-sink"]
  | "network.captive-fix" | "network.vpn-fix" | "network.dns-flush" =>
      ["nmcli", "-t", "-f", "STATE", "general"]
  | "controller.repair" => ["systemctl", "is-active", "--quiet", "joycond.service"]
  | "portal.restart-user" =>
      ["systemctl", "--user", "is-active", "--quiet", "xdg-desktop-portal.service"]
  | "firmware.refresh" => ["fwupdmgr", "get-updates"]
  | "power.profile-fix" => ["powerprofilesctl", "get"]
  | "display.reconfigure" => ["kscreen-doctor", "-o"]
  | _ => ["systemctl", "--user", "is-active", "--quiet", "pipewire.service"]

/-- `verify_recipe`. -/
def verifyRecipe (host : Host) (recipeId : String) : Act Bool :=
  if recipeId = "storage.maint" then maintVerified host
  else do
    let outcome ← (runOk host (verification recipeId)).run
    return outcome.isOk

/-! ### The execution -/

/-- The result of `execute_recipe`. -/
def executionReply (result : Except String String) (verified : Bool) : Except String String :=
  match result with
  | .ok detail =>
      if verified then .ok detail else .error (detail ++ "; post-repair verification failed")
  | .error detail => .error detail

/-- The commands of a repair. -/
def repairResult (host : Host) (recipe : Recipe) : Act (Except String String) :=
  if recipe.id ∈ executorOnly then (runExecutor host recipe.id).run
  else (runCommand host recipe.command).run

/-- The check that follows a repair that succeeded. -/
def verifyResult (host : Host) (recipe : Recipe) (result : Except String String) : Act Bool :=
  if result.isOk then verifyRecipe host recipe.id else pure false

/-- `execute_recipe` on the state that it loaded, with the state that it saves. The call holds the
slot of repairs. -/
def executeRecipe (host : Host) (s : GuardianState) (recipeId : String) (askpass : Bool)
    (clock : Clock) : Act (Except String String × Option GuardianState) :=
  match admitRecipe s recipeId askpass clock.pending clock.cooldown with
  | .error message => pure (.error message, none)
  | .ok recipe => do
      let result ← repairResult host recipe
      let verified ← verifyResult host recipe result
      return (executionReply result verified,
        some (saveState (recordExecution s recipe result verified clock.record)))

end Kyth.Guardian
