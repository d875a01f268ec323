import Kyth.Lib.Json
import Kyth.Lib.Check

/-!
# Requests of the privileged daemon (`privileged.rs`)

`validateRequest` turns a JSON request into a fixed command with its standard input. The input of a
network share operation is a JSON document that the daemon builds from the payload of the request; it is
kept as a value here, since `serde_json` reads back what it wrote. How long `serde_json` writes the
payload is a parameter.
-/

namespace Kyth.Privileged

open Str
open Json (Value)

/-- `MAX_SHARE_PAYLOAD`. -/
def maxSharePayload : ℕ := 64 * 1024

/-- The fields of a JSON object. -/
abbrev Fields := List (String × Value)

/-- `Value::as_object`. -/
def asObject : Value → Option Fields
  | .object fields => some fields
  | _ => none

/-- What is written to the standard input of the command. -/
inductive Stdin
  | bytes (text : String)
  | json (payload : Value)

/-- `ExecSpec`. -/
structure ExecSpec where
  argv : List String
  stdin : Option Stdin

/-- `text`: a text field of the request, empty when it is missing. -/
def text (request : Value) (field : String) : String := ((request.get field).bind Value.asStr).getD ""

/-- `share_text`. -/
def shareText (payload : Fields) (field : String) (allowEmpty : Bool) (maximum : ℕ) :
    Except String String :=
  match (payload.lookup field).bind Value.asStr with
  | none => .error (field ++ " must be text")
  | some value =>
      if (!allowEmpty && value == "") || decide (maximum < value.toList.length) ||
          value.toList.any fun c => isControl c || c == '\x7f' then
        .error ("invalid " ++ field)
      else .ok value

/-- The parts of a path that `normalize_mount_point` keeps. -/
def keptParts (value : String) : List String :=
  (split value '/').filter fun part => part ≠ "" ∧ part ≠ "."

/-- `normalize_mount_point`. -/
def normalizeMountPoint (value : String) : Except String String :=
  if (split value '/').contains ".." then .error "mount_point must not contain '..'"
  else .ok ("/" ++ "/".intercalate (keptParts value))

/-- `SHARE_NAME_RE`. -/
def shareNameMatches (name : String) : Bool :=
  decide (1 ≤ name.toList.length) && decide (name.toList.length ≤ 64) &&
    all name fun c => isAsciiAlphanumeric c || c == '_' || c == '-'

/-- `SHARE_HOST_RE`. -/
def shareHostMatches (server : String) : Bool :=
  decide (1 ≤ server.toList.length) && decide (server.toList.length ≤ 253) &&
    all server fun c => isAsciiAlphanumeric c || c == '.' || c == '_' || c == ':' || c == '-'

/-- `MOUNT_PATH_RE`. -/
def mountPathMatches (path : String) : Bool :=
  path != "" &&
    all path fun c =>
      isAsciiAlphanumeric c || c == '.' || c == '_' || c == '/' || c == ' ' || c == '-'

/-- The prefixes below which a share is mounted. -/
def mountPrefixes : List String := ["/mnt/", "/media/", "/run/media/"]

/-- `share_mount_point`. -/
def shareMountPoint (payload : Fields) : Except String String := do
  let value ← shareText payload "mount_point" false 4096
  let mountPoint ← normalizeMountPoint value
  if !mountPathMatches mountPoint || contains mountPoint "//" ||
      !mountPrefixes.any (startsWith mountPoint) then
    throw "invalid mount_point"
  return mountPoint

/-- `str::trim_start_matches` for one character. -/
def trimStartMatches (s : String) (c : Char) : String := String.ofList (s.toList.dropWhile (· == c))

/-- The checks of a share path that the daemon makes. -/
def sharePathRefused (path : String) : Bool :=
  path == "" || startsWith path "." || contains path "//" || containsChar path '%' ||
    (split path '/').contains ".."

/-- An optional Boolean field. -/
def flag (payload : Fields) (field : String) : Bool :=
  ((payload.lookup field).bind Value.asBool).getD false

/-- The fields of a share that are added to its name and mount point. -/
def addFields (payload : Fields) (uid gid : UInt32) : Except String Fields := do
  let server ← shareText payload "server" false 253
  if !shareHostMatches server then throw "invalid share server"
  let sharePath := trimStartMatches (← shareText payload "share_path" false 4096) '/'
  if sharePathRefused sharePath then throw "invalid share_path"
  let username ← shareText payload "username" false 256
  let password ← shareText payload "password" true 4096
  let domain ← shareText payload "domain" true 256
  return [("server", .string server), ("share_path", .string sharePath),
    ("username", .string username), ("password", .string password), ("domain", .string domain),
    ("auto_mount", .bool (flag payload "auto_mount")),
    ("mount_now", .bool (flag payload "mount_now")),
    -- These identities come from the peer credentials, never from the client.
    ("uid", .nat uid.toUInt64), ("gid", .nat gid.toUInt64)]

/-- The fields besides the name and the mount point: a removal needs none. -/
def operationFields (operation : String) (payload : Fields) (uid gid : UInt32) :
    Except String Fields :=
  if operation = "network_share_add" then addFields payload uid gid else .ok []

section

-- The length of an object as `serde_json::to_vec` writes it.
variable (writtenLength : Fields → ℕ)

/-- `network_share_stdin`. -/
def networkShareStdin (request : Value) (operation : String) (uid gid : UInt32) :
    Except String Value := do
  let some payload := (request.get "payload").bind asObject
    | throw "network share payload must be an object"
  if maxSharePayload < writtenLength payload then throw "network share payload is too large"
  let name ← shareText payload "name" false 64
  if !shareNameMatches name then throw "invalid share name"
  let mountPoint ← shareMountPoint payload
  let added ← operationFields operation payload uid gid
  return .object (("name", .string name) :: ("mount_point", .string mountPoint) :: added)

/-- The pattern for Flatpak ids: a run of letters and digits, then at least one more run, which may
hold underscores, after each dot or hyphen. -/
def validFlatpakId (value : String) : Bool :=
  match value.toList.splitOnP fun c => c == '.' || c == '-' with
  | first :: second :: rest =>
      !first.isEmpty && first.all isAsciiAlphanumeric &&
        (second :: rest).all fun part =>
          !part.isEmpty && part.all fun c => isAsciiAlphanumeric c || c == '_'
  | _ => false

/-- `str::split_once` for a character, with an empty second part when there is none. -/
def splitOnceOr (s : List Char) (c : Char) : List Char × List Char :=
  (s.takeWhile (· != c), (s.dropWhile (· != c)).drop 1)

/-- `valid_block_device_path` of `system/software_catalog.rs`. -/
def validBlockDevicePath (value : String) : Bool :=
  match stripPrefix value "/dev/" with
  | none => false
  | some name =>
      if name == "" || decide (64 < name.toList.length) || containsChar name '/' ||
          !(all name fun c => decide (c.toNat < 128)) then false
      else
        match (stripPrefix name "sd").or (stripPrefix name "vd") with
        | some rest =>
            let letters := rest.toList.takeWhile fun c => 97 ≤ c.toNat && c.toNat ≤ 122
            decide (1 ≤ letters.length) && (rest.toList.drop letters.length).all isAsciiDigit
        | none =>
            match stripPrefix name "nvme", stripPrefix name "mmcblk" with
            | some rest, _ =>
                let (controller, below) := splitOnceOr rest.toList 'n'
                let (space, partition) := splitOnceOr below 'p'
                rest.toList.contains 'n' && !controller.isEmpty && controller.all isAsciiDigit &&
                  !space.isEmpty && space.all isAsciiDigit && partition.all isAsciiDigit
            | none, some rest =>
                let (device, partition) := splitOnceOr rest.toList 'p'
                !device.isEmpty && device.all isAsciiDigit && partition.all isAsciiDigit
            | none, none => false

/-- `validate_request`. -/
def validateRequest (request : Value) (uid gid : UInt32) : Except String ExecSpec := do
  let some _ := asObject request | throw "request must be an object"
  let operation := text request "operation"
  if operation = "flatpak_update" then
    return ⟨["/usr/bin/flatpak", "update", "--system", "-y"], none⟩
  if operation = "flatpak_uninstall" then
    let appId := text request "app_id"
    if !validFlatpakId appId then throw "invalid Flatpak application id"
    return ⟨["/usr/bin/flatpak", "uninstall", "--system", "-y", appId], none⟩
  if operation = "firmware_update" then return ⟨["/usr/bin/fwupdmgr", "update"], none⟩
  if operation = "nvidia_install" then
    return ⟨["/usr/bin/ujust", "install-nvidia-driver"], none⟩
  if operation = "kernel_switch" then
    let flavor := text request "flavor"
    if flavor ≠ "fedora" ∧ flavor ≠ "cachy" then throw "kernel flavor must be fedora or cachy"
    return ⟨["/usr/bin/ujust", "switch-kernel", flavor], none⟩
  if operation = "secureboot_enroll" then
    return ⟨["/usr/bin/ujust", "enroll-secureboot"], none⟩
  if operation = "bitlocker_unlock" then
    let device := text request "device"
    let key := text request "key"
    if !validBlockDevicePath device then throw "invalid block device"
    if key.toList.length < 8 ∨ 128 < key.toList.length ∨ '\n' ∈ key.toList ∨ '\r' ∈ key.toList then
      throw "invalid BitLocker key"
    return ⟨["/usr/bin/udisksctl", "unlock", "-b", device, "--key-file", "/dev/stdin"],
      some (.bytes key)⟩
  if operation = "network_share_add" ∨ operation = "network_share_remove" then
    let payload ← networkShareStdin writtenLength request operation uid gid
    return ⟨["/usr/libexec/kyth-network-share",
      if operation = "network_share_add" then "add" else "remove"], some (.json payload)⟩
  throw "operation is not allowlisted"

end

end Kyth.Privileged
