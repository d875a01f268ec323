import Kyth.Lib.Json

/-!
# What `bootc status` and the registry say of an image (`bootc_query.rs`, `registry.rs`)

The status document names the booted and the staged deployment under keys that vary between the
releases of `bootc`, so every reader tries a list of paths. The registry is asked for the manifest of
the branch, whose digest is compared with the booted one.
-/

namespace Kyth.Upgrade

open Json Str

/-- `nested_get`. -/
def nestedGet (data : Value) : List String → Option Value
  | [] => some data
  | key :: path => (data.get key).bind fun v => nestedGet v path

mutual

/-- `walk_strings`. -/
def walkStrings : Value → List String
  | .string s => [s]
  | .object fields => walkFields fields
  | .array values => walkValues values
  | .null | .bool _ | .number _ => []

/-- The texts of the values of an object. -/
def walkFields : List (String × Value) → List String
  | [] => []
  | (_, v) :: fields => walkStrings v ++ walkFields fields

/-- The texts of an array. -/
def walkValues : List Value → List String
  | [] => []
  | v :: values => walkStrings v ++ walkValues values

end

/-- The text of a value, trimmed, when something of it is visible. -/
def visibleText (v : Value) : Option String :=
  match v.asStr with
  | some s => if trim s = "" then none else some (trim s)
  | none => none

/-- `char::to_lowercase`, as far as ASCII letters come out of it: the Kelvin sign and the dotted
capital `I` are the characters beyond ASCII that have one. -/
def lowered (c : Char) : List Char :=
  if c.toNat = 0x212A then ['k']
  else if c.toNat = 0x130 then ['i', Char.ofNat 0x307]
  else [charLower c]

/-- The text names the images of the project, in any case. -/
def namesKyth (s : String) : Bool :=
  contains (String.ofList (s.toList.flatMap lowered)) "ghcr.io/kyth-os/kyth"

/-- The paths at which a status document may hold the reference of the booted image. -/
def referencePaths : List (List String) :=
  [["status", "booted", "image", "reference"], ["status", "booted", "image", "image", "reference"],
    ["status", "booted", "image", "image", "image"], ["status", "booted", "image", "image"],
    ["status", "booted", "image"], ["spec", "image", "image"], ["spec", "image", "reference"]]

/-- The reference that a value at one of the paths holds: a text, or an object with one. -/
def referenceAt (v : Value) : Option String :=
  visibleText v <|> (v.get "reference").bind visibleText <|> (v.get "image").bind visibleText

/-- `image_reference_from_status`. -/
def imageReferenceFromStatus (data : Value) : Option String :=
  (referencePaths.findSome? fun path => (nestedGet data path).bind referenceAt) <|>
    ((walkStrings data).find? namesKyth).map trim

/-- The paths at which a section of a status document may hold a value under either key. -/
def sectionPaths (name longKey shortKey : String) : List (List String) :=
  [["status", name, "image", longKey], ["status", name, "image", shortKey],
    ["status", name, longKey], ["status", name, shortKey]]

/-- The text of a value when it is a digest. -/
def digestText (v : Value) : Option String := v.asStr.filter fun s => startsWith s "sha256:"

/-- `image_digest_from_status`. -/
def imageDigestFromStatus (data : Value) (name : String) : Option String :=
  (sectionPaths name "imageDigest" "digest").findSome? fun path =>
    (nestedGet data path).bind digestText

/-- `image_version_from_status`. -/
def imageVersionFromStatus (data : Value) (name : String) : Option String :=
  (sectionPaths name "imageVersion" "version").findSome? fun path =>
    (nestedGet data path).bind visibleText

/-- A digest is not the empty text. -/
theorem ne_empty_of_imageDigestFromStatus {data : Value} {name digest : String}
    (h : imageDigestFromStatus data name = some digest) : digest ≠ "" := by
  obtain ⟨path, -, hpath⟩ := List.exists_of_findSome?_eq_some h
  obtain ⟨v, -, hv⟩ := Option.bind_eq_some_iff.1 hpath
  obtain ⟨-, hstart⟩ := Option.filter_eq_some_iff.1 hv
  rintro rfl
  exact absurd hstart (by decide)

/-! ### The channel of an image -/

/-- `VALID_ROLLOUT_RINGS`. -/
def validRolloutRings : List String := ["follow-image", "canary", "testing", "stable"]

/-- The text after the last colon, if there is one. -/
def afterLastColon (s : String) : Option String :=
  if containsChar s ':' then
    some (String.ofList (s.toList.reverse.takeWhile (· != ':')).reverse)
  else none

/-- `str::strip_suffix` with the text itself as the default. -/
def withoutSuffix (s suffix : String) : String :=
  if suffix.toList.isSuffixOf s.toList then
    String.ofList (s.toList.take (s.toList.length - suffix.toList.length))
  else s

/-- `image_ring`. -/
def imageRing (reference : String) : Option String :=
  match withoutSuffix ((afterLastColon (splitFirst reference '@')).getD "") "-cachy" with
  | "canary" => some "canary"
  | "testing" => some "testing"
  | "latest" => some "stable"
  | _ => none

/-- `rollout_policy_reason`. -/
def rolloutPolicyReason (reference configuredRing : String) : Option String :=
  if configuredRing ∉ validRolloutRings then
    some ("invalid rollout ring '" ++ configuredRing ++ "'")
  else if configuredRing = "follow-image" ∨ imageRing reference = some configuredRing then none
  else
    match imageRing reference with
    | none => some ("cannot determine rollout ring from booted image '" ++ reference ++ "'")
    | some ring =>
        some ("booted image belongs to " ++ ring ++ " ring, configured for " ++ configuredRing)

/-- `branch_from_ref`. -/
def branchFromRef (reference : String) : Option String :=
  if trim reference = "" then none else afterLastColon (splitFirst (trim reference) '@')

/-! ### The registry -/

/-- A raw manifest: the document it parses to, `null` when it does not, and the hexadecimal SHA-256 of
its bytes. -/
structure Manifest where
  document : Value
  sha256 : String

/-- No bytes at all. -/
def emptyManifest : Manifest :=
  ⟨.null, "e3b0c44298fc1c149afbf4c8996fb92427ae41e4649b934ca495991b7852b855"⟩

/-- `amd64_manifest_entry`: an entry without a platform ends the search. -/
def amd64ManifestEntry (manifest : Value) : Option Value :=
  ((manifest.get "manifests").bind Value.asArray).bind go
where
  /-- The loop over the entries. -/
  go : List Value → Option Value
    | [] => none
    | entry :: entries =>
        match entry.get "platform" with
        | none => none
        | some platform =>
            match platform.get "architecture" with
            | none => none
            | some architecture =>
                if architecture.asStr ≠ some "amd64" then go entries
                else
                  match platform.get "os" with
                  | none => none
                  | some os => if os.asStr = some "linux" then some entry else go entries

/-- The digest that `remote_digest_and_timestamp` finds. -/
def remoteDigest (raw : Manifest) : Option String :=
  let manifest := raw.document
  if ((manifest.get "mediaType").bind Value.asStr).any (endsWith · "manifest.v1+json") then
    some ("sha256:" ++ raw.sha256)
  else if ((manifest.get "manifests").bind Value.asArray).isSome then
    ((amd64ManifestEntry manifest).bind (Value.get · "digest")).bind digestText
  else if (manifest.get "config").isSome ∧ (manifest.get "layers").isSome then
    some ("sha256:" ++ raw.sha256)
  else none

/-- The time that `remote_digest_and_timestamp` finds. -/
def remoteTimestamp (raw : Manifest) : String :=
  (((raw.document.get "annotations").bind (Value.get · "org.opencontainers.image.created")).bind
    Value.asStr).getD ""

/-- The states of an update check. -/
inductive CheckState
  | uptodate
  | available
  | error
  deriving DecidableEq

/-- `UpdateCheckResult`, without the flag of a failed probe, which the watcher does not read. -/
structure UpdateCheckResult where
  state : CheckState
  detail : String
  manifestRaw : Manifest

/-- `check_registry_update_with_timeout` with the answer of `skopeo inspect` for a reference. -/
def checkRegistryUpdate (statusData : Value) (branch registry : String)
    (inspectRaw : String → Except String Manifest) : UpdateCheckResult :=
  match imageDigestFromStatus statusData "booted" with
  | none => ⟨.error, "Could not read the current booted image digest.", emptyManifest⟩
  | some localDigest =>
      let reference := registry ++ ":" ++ branch
      match inspectRaw reference with
      | .error detail => ⟨.error, detail, emptyManifest⟩
      | .ok raw =>
          match remoteDigest raw with
          | none => ⟨.error, "Could not parse manifest for " ++ reference ++ ".", raw⟩
          | some digest =>
              ⟨if digest = localDigest then .uptodate else .available, remoteTimestamp raw, raw⟩

end Kyth.Upgrade
