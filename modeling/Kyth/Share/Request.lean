import Kyth.Privileged.Request

/-!
# Requests of the share helper (`network_share.rs`)

The helper that the privileged daemon runs reads a share from its standard input and checks it again
before it writes anything: `validateRequest`.
-/

namespace Kyth.Share

open Str
open Json (Value)

/-- `plain`. -/
def plain (value : Option Value) (field : String) (allowEmpty : Bool) (maximum : ℕ) :
    Except String String :=
  match value.bind Value.asStr with
  | none => .error (field ++ " must be text")
  | some value =>
      if (!allowEmpty && value == "") || decide (maximum < value.utf8ByteSize) ||
          value.toList.any isControl then
        .error ("invalid " ++ field)
      else .ok value

/-- The normal components of a path (`Path::components`). -/
def normalComponents (value : String) : List String :=
  (split value '/').filter fun part => part ≠ "" ∧ part ≠ "."

/-- `normalized_mount_point`: the components pushed one after the other on an empty path. -/
def normalizedMountPoint (value : String) : Except String String :=
  if (split value '/').contains ".." then .error "mount_point must not contain '..'"
  else .ok ((if startsWith value "/" then "/" else "") ++
    "/".intercalate (normalComponents value))

/-- `SAFE_MOUNT_PREFIXES`. -/
def safeMountPrefixes : List String := ["/mnt/", "/media/", "/run/media/"]

/-- `validate_mount_point`. -/
def validateMountPoint (value : Option Value) : Except String String := do
  let raw ← plain value "mount_point" false 4096
  let path ← normalizedMountPoint raw
  if path == "" ||
      !(all path fun c =>
        isAsciiAlphanumeric c || c == '.' || c == '_' || c == '/' || c == ' ' || c == '-') ||
      !safeMountPrefixes.any (startsWith path) then
    throw "mount_point is outside an approved prefix"
  -- A share is mounted at least one level below the root of a prefix.
  if ((split path '/').filter (· ≠ "")).length < 2 then
    throw "mount_point must be a subdirectory, not a prefix root"
  return path

/-- `validate_name`. -/
def validateName (value : Option Value) : Except String String := do
  let name ← plain value "name" false 64
  if !all name fun c => isAsciiAlphanumeric c || c == '_' || c == '-' then
    throw "name contains unsupported characters"
  return name

/-- `validate_server`. -/
def validateServer (value : Option Value) : Except String String := do
  let server ← plain value "server" false 253
  if !all server fun c => isAsciiAlphanumeric c || c == '.' || c == '_' || c == ':' || c == '-' then
    throw "server is not a hostname or IP address"
  return server

/-- `validate_share_path`. A backslash continues a line of a unit file and a quote ends a quoted value,
so both are refused. -/
def validateSharePath (value : Option Value) : Except String String := do
  let sharePath := Privileged.trimStartMatches (← plain value "share_path" false 4096) '/'
  if sharePath == "" || startsWith sharePath "." || contains sharePath "//" ||
      containsChar sharePath '%' || containsChar sharePath '\\' || containsChar sharePath '"' ||
      (split sharePath '/').contains ".." then
    throw "share_path is invalid"
  return sharePath

/-- `ShareRequest`. -/
structure ShareRequest where
  name : String
  server : Option String
  sharePath : Option String
  mountPoint : String
  username : Option String
  password : Option String
  domain : Option String
  autoMount : Bool
  mountNow : Bool
  uid : ℕ
  gid : ℕ
  deriving DecidableEq

/-- A number that has to be there when a share is added. -/
def identity (object : Privileged.Fields) (adding : Bool) (field : String) : Except String ℕ :=
  if adding then
    match (object.lookup field).bind Value.asU64 with
    | some n => .ok n.toNat
    | none => .error (field ++ " must be a non-negative integer")
  else .ok 0

/-- A Boolean field that has to be there. -/
def boolean (object : Privileged.Fields) (field : String) : Except String Bool :=
  match (object.lookup field).bind Value.asBool with
  | some b => .ok b
  | none => .error (field ++ " must be boolean")

/-- `validate_request`. -/
def validateRequest (payload : Value) (adding : Bool) : Except String ShareRequest := do
  let some object := Privileged.asObject payload | throw "share payload must be an object"
  let name ← validateName (object.lookup "name")
  let mountPoint ← validateMountPoint (object.lookup "mount_point")
  let uid ← identity object adding "uid"
  let gid ← identity object adding "gid"
  if 2 ^ 32 - 1 < uid ∨ 2 ^ 32 - 1 < gid then throw "uid and gid are out of range"
  if !adding then
    return ⟨name, none, none, mountPoint, none, none, none, false, false, uid, gid⟩
  let autoMount ← boolean object "auto_mount"
  let mountNow ← boolean object "mount_now"
  let server ← validateServer (object.lookup "server")
  let sharePath ← validateSharePath (object.lookup "share_path")
  let username ← plain (object.lookup "username") "username" false 256
  let password ← plain (object.lookup "password") "password" true 4096
  let domain ← plain (object.lookup "domain") "domain" true 256
  return ⟨name, some server, some sharePath, mountPoint, some username, some password, some domain,
    autoMount, mountNow, uid, gid⟩

end Kyth.Share
