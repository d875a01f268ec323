import Kyth.Installer.Fstab
import Kyth.Installer.Manual
import Kyth.Installer.Partitions
import Kyth.Lib.Action

/-!
# The mounts of a manual installation (`installer_manual.rs`)

Every row names a partition, a mount point and the UUID that was shown when the partition was selected. The
whole table is checked before anything is mounted: `prepareRows` probes each partition again, skips a row with
a UUID that an earlier row has, and builds the lines for the fstab.

`apply_sound_iff` says when the accepted rows are right: the UUID of a row may also be the PARTUUID of its
partition, and equal UUIDs are looked for letter by letter.
-/

namespace Kyth.Manual

open Str Check Storage Fstab TextLines

/-- `ManualMountInput`. -/
structure ManualMountInput where
  partition : String
  mountpoint : String
  fstype : String
  uuid : String
  deriving DecidableEq, Repr

/-- `ManualMountsInput`. -/
structure ManualMountsInput where
  configRoot : String
  fstabPath : String
  disk : String
  mounts : List ManualMountInput

/-- `ManualMountsResult`. -/
structure ManualMountsResult where
  configured : ℕ
  skipped : ℕ
  deriving DecidableEq, Repr

/-- What the system and other programs answer. -/
structure Answers where
  /-- Whether the root is a real directory. -/
  root : Except String Bool
  /-- The probe of a disk, whose output can be unreadable in turn. -/
  lsblk : String → Except String (Except String LsblkSnapshot)
  sectorSize : String → Except String ℕ
  /-- The output of `blkid` for a device. -/
  blkid : String → Except String String
  /-- The steps that mount a device with a filesystem at a place. -/
  mount : String → String → String → Except String Unit

/-- `safe_device`. -/
def safeDevice (value : String) : Except String String :=
  let value := trim value
  let basename := (stripPrefix value "/dev/").getD ""
  let validName := basename ≠ "" && (!containsChar basename '/' ||
    (stripPrefix basename "mapper/").any fun name => name ≠ "" && !containsChar name '/')
  if !startsWith value "/dev/" || !validName || contains value ".." || contains value "//" ||
      !all value (fun c => isAsciiAlphanumeric c || c == '/' || c == '.' || c == '_' || c == '-') then
    throw "manual partition must be a safe /dev path"
  else pure value

/-- `u8::is_ascii_hexdigit`, or a hyphen. -/
def isUuidChar (c : Char) : Bool := isAsciiHexdigit c || c == '-'

/-- `safe_uuid`. -/
def safeUuid (value : String) : Except String String :=
  let value := trim value
  if value = "" || !all value isUuidChar then throw "manual filesystem UUID is invalid"
  else pure value

/-- `verified_uuid`. -/
def verifiedUuid (supplied detectedUuid detectedPartuuid : String) : Except String String := do
  let supplied ← safeUuid supplied
  let matchesUuid := (safeUuid detectedUuid).toOption.any fun detected =>
    eqIgnoreAsciiCase detected supplied
  let matchesPartuuid := trim detectedPartuuid ≠ "" &&
    (safeUuid detectedPartuuid).toOption.any fun detected => eqIgnoreAsciiCase detected supplied
  if !matchesUuid && !matchesPartuuid then
    throw "manual filesystem UUID does not match its selected partition"
  else pure supplied

/-- `normalized_fs`. -/
def normalizedFs (value : String) : Except String String :=
  let value := toAsciiLowercase (trim value)
  if value = "btrfs" ∨ value = "ext4" ∨ value = "xfs" then pure value
  else if value = "linux-swap" ∨ value = "swap" then pure "linux-swap"
  else throw "unsupported manual filesystem type"

/-- `mount_target`. -/
def mountTarget (root fstabMountpoint : String) : String :=
  if fstabMountpoint = "/var" ∨ startsWith fstabMountpoint "/var/" then
    root ++ "/ostree/deploy/default/var" ++
      String.ofList (fstabMountpoint.toList.drop "/var".toList.length)
  else root ++ fstabMountpoint

/-- `device_path`. -/
def devicePath (raw : String) : Except String String :=
  let value := trim raw
  if !startsWith value "/dev/" || value.utf8ByteSize ≤ 5 || contains value ".." || contains value "//" ||
      !all value (fun c => isAsciiAlphanumeric c || c == '/' || c == '_' || c == '-' || c == '.') then
    throw "UUID probe device must be a safe /dev path"
  else pure value

/-- `lookup_uuid`. -/
def lookupUuid (answers : Answers) (device : String) : Except String String := do
  let path ← devicePath device
  let output ← answers.blkid path
  let uuid := trim output
  if uuid = "" || uuid.utf8ByteSize > 128 || !all uuid isUuidChar then
    throw "filesystem UUID probe returned an invalid value"
  else pure uuid

/-- A row that is ready to be mounted. -/
structure PreparedRow where
  device : String
  fs : String
  mountpoint : String
  line : String
  deriving DecidableEq, Repr

/-- The variables of the loop over the rows. -/
structure PrepareState where
  prepared : List PreparedRow := []
  seenMountpoints : List String := []
  seenPartitions : List String := []
  seenUuids : List String := []
  skipped : ℕ := 0
  deriving DecidableEq, Repr

/-- The line for the fstab. -/
def fstabLine (uuid fs mountpoint : String) : String :=
  let pass := if fs = "linux-swap" then "0" else if fs = "btrfs" then "0" else "2"
  if fs = "linux-swap" then "UUID=" ++ uuid ++ " none swap defaults 0 " ++ pass ++ "\n"
  else
    let options := if fs = "btrfs" then "defaults,compress=zstd:1" else "defaults"
    "UUID=" ++ uuid ++ " " ++ mountpoint ++ " " ++ fs ++ " " ++ options ++ " 0 " ++ pass ++ "\n"

/-- `claim_assignment`. -/
def claimAssignment (mountpoint device : String) (seenMountpoints seenPartitions : List String) :
    Except String (List String × List String) :=
  if mountpoint ∈ seenMountpoints then
    throw ("manual mount point " ++ mountpoint ++ " is assigned more than once")
  else if device ∈ seenPartitions then
    throw ("manual partition " ++ device ++ " has multiple mount assignments")
  else pure (seenMountpoints ++ [mountpoint], seenPartitions ++ [device])

/-- The safety probe of a row's partition: the device and its PARTUUID. -/
def probeRow (snapshot : Except String LsblkSnapshot) (disk : String) (sectorSize : ℕ)
    (mount : ManualMountInput) : Except String (String × String) := do
  let device ← safeDevice mount.partition
  match snapshot.bind fun snapshot => partitionProbeFromSnapshot snapshot disk device sectorSize with
  | .error error => throw ("manual partition " ++ device ++ " failed its safety re-probe: " ++ error)
  | .ok probe =>
      if probe.current then
        throw ("manual partition " ++ device ++ " is mounted; unmount it before installing")
      else if probe.inUse then
        throw ("manual partition " ++ device ++ " has active mappings stacked on it")
      else if probe.readOnly then throw ("manual partition " ++ device ++ " is read-only")
      else pure (device, probe.partuuid)

/-- The assignment of a row with a UUID that no earlier row has. -/
def assignRow (acc : PrepareState) (device uuid : String) (mount : ManualMountInput) :
    Except String PrepareState := do
  let fs ← normalizedFs mount.fstype
  let mountpoint ← normalizeMountpoint mount.mountpoint fs false
  let fstabMountpoint := if mountpoint = "/home" then "/var/home" else mountpoint
  let seen ← claimAssignment fstabMountpoint device acc.seenMountpoints acc.seenPartitions
  pure { acc with
    prepared := acc.prepared ++ [⟨device, fs, fstabMountpoint, fstabLine uuid fs fstabMountpoint⟩]
    seenMountpoints := seen.1, seenPartitions := seen.2, seenUuids := acc.seenUuids ++ [uuid] }

/-- One turn of the loop over the rows. -/
def prepareRow (answers : Answers) (snapshot : Except String LsblkSnapshot) (disk : String)
    (sectorSize : ℕ) (acc : PrepareState) (mount : ManualMountInput) : Except String PrepareState := do
  let probe ← probeRow snapshot disk sectorSize mount
  let detected ← lookupUuid answers probe.1
  let uuid ← verifiedUuid mount.uuid detected probe.2
  if uuid ∈ acc.seenUuids then pure { acc with skipped := acc.skipped + 1 }
  else assignRow acc probe.1 uuid mount

/-- The first part of `apply`: the whole table is checked. -/
def prepareRows (answers : Answers) (input : ManualMountsInput) : Except String PrepareState := do
  let disk ← safeDevice input.disk
  let snapshot ← answers.lsblk disk
  let sectorSize ← answers.sectorSize disk
  input.mounts.foldlM (prepareRow answers snapshot disk sectorSize) {}

/-- `append_fstab` on the file of the installed system. -/
def appendLine (fstab line : String) : Action FstabFile String Unit := fun file =>
  match appendFstab fstab line.toList file with
  | .ok file' => (.ok (), file')
  | .error error => (.error error, file)

/-- `apply_mount_row`. -/
def applyMountRow (answers : Answers) (root fstab : String) (row : PreparedRow) :
    Action FstabFile String Unit := do
  if row.fs ≠ "linux-swap" then
    Action.check (answers.mount row.device row.fs (mountTarget root row.mountpoint))
  appendLine fstab row.line

/-- The last two components of the path are `etc` and `fstab`. -/
def isFstabPath (path : String) : Bool :=
  ((split path '/').filter (· ≠ "")).reverse.take 2 == ["fstab", "etc"]

/-- `apply`. -/
def apply (answers : Answers) (input : ManualMountsInput) : Action FstabFile String ManualMountsResult := do
  let root ← Action.check (safePath input.configRoot "config root")
  let isDirectory ← Action.check answers.root
  if !isDirectory then throw "manual install root must be a real directory"
  let fstab ← Action.check (safePath input.fstabPath "fstab path")
  if !isFstabPath fstab then throw "fstab path must point to installed /etc/fstab"
  let acc ← Action.check (prepareRows answers input)
  acc.prepared.forM (applyMountRow answers root fstab)
  return { configured := acc.prepared.length, skipped := acc.skipped }

/-! ### What the accepted rows should be -/

/-- The UUID that a line of the fstab begins with. -/
def uuidField (line : String) : Option String :=
  (words line.toList).head?.bind fun field => stripPrefix (String.ofList field) "UUID="

/-- The rows that are accepted: every line is one that the fstab takes and names the filesystem UUID that was
probed for its device, as far as `same` tells UUIDs apart; and no two rows have the same mount point, the same
device, or UUIDs that differ only in case. -/
structure Sound (same : String → String → Prop) (answers : Answers) (rows : List PreparedRow) : Prop where
  valid : ∀ row ∈ rows, Passes (validateFstabLine row.line.toList)
  identity : ∀ row ∈ rows, ∃ uuid probed, uuidField row.line = some uuid ∧
    lookupUuid answers row.device = .ok probed ∧ same uuid probed
  mountpoints : (rows.map PreparedRow.mountpoint).Nodup
  devices : (rows.map PreparedRow.device).Nodup
  uuids : (rows.map fun row => uuidField row.line).Pairwise fun first second =>
    ∀ u ∈ first, ∀ v ∈ second, eqIgnoreAsciiCase u v = false

/-- The rows of the request that are not skipped: no earlier one has the same UUID, letter by letter. -/
def keptMounts : List String → List ManualMountInput → List ManualMountInput
  | _, [] => []
  | seen, mount :: mounts =>
      if trim mount.uuid ∈ seen then keptMounts seen mounts
      else mount :: keptMounts (seen ++ [trim mount.uuid]) mounts

/-- The UUID in the request is the one of the filesystem on the partition. -/
def MatchesProbe (same : String → String → Prop) (answers : Answers) (mount : ManualMountInput) : Prop :=
  ∃ device probed, safeDevice mount.partition = .ok device ∧ lookupUuid answers device = .ok probed ∧
    same (trim mount.uuid) probed

/-- No two UUIDs in the request differ only in case. -/
def CaseDistinct (mounts : List ManualMountInput) : Prop :=
  (mounts.map fun mount => trim mount.uuid).Pairwise fun u v => eqIgnoreAsciiCase u v = false

/-! ### One row -/

section Row

variable {answers : Answers} {snapshot : Except String LsblkSnapshot} {disk : String} {sectorSize : ℕ}
  {acc acc' : PrepareState} {mount : ManualMountInput}

theorem isWhitespace_of_isUuidChar {c : Char} (h : isUuidChar c = true) : isWhitespace c = false := by
  simp only [isUuidChar, isAsciiHexdigit, isAsciiDigit, Bool.or_eq_true, Bool.and_eq_true,
    decide_eq_true_eq, beq_iff_eq] at h
  rcases h with ((h | h) | h) | rfl
  · simp only [isWhitespace, Bool.or_eq_false_iff, Bool.and_eq_false_iff, decide_eq_false_iff_not,
      beq_eq_false_iff_ne]
    omega
  · simp only [isWhitespace, Bool.or_eq_false_iff, Bool.and_eq_false_iff, decide_eq_false_iff_not,
      beq_eq_false_iff_ne]
    omega
  · simp only [isWhitespace, Bool.or_eq_false_iff, Bool.and_eq_false_iff, decide_eq_false_iff_not,
      beq_eq_false_iff_ne]
    omega
  · decide

/-- The UUID that goes into the line is the one of the request. -/
theorem verifiedUuid_eq_ok {supplied detected partuuid uuid : String}
    (h : verifiedUuid supplied detected partuuid = .ok uuid) :
    uuid = trim supplied ∧ ∀ c ∈ uuid.toList, isWhitespace c = false := by
  obtain ⟨checked, hsafe, h⟩ := bind_eq_ok.1 h
  have huuid : uuid = checked := by
    dsimp only at h
    split_ifs at h
    cases h
    rfl
  unfold safeUuid at hsafe
  dsimp only at hsafe
  split_ifs at hsafe with hbad
  cases hsafe
  refine ⟨huuid, fun c hc => isWhitespace_of_isUuidChar ?_⟩
  rw [Bool.or_eq_true, not_or] at hbad
  have hall : all (trim supplied) isUuidChar = true := by simpa using hbad.2
  exact List.all_eq_true.1 hall c (huuid ▸ hc)

/-- The line names it. -/
theorem uuidField_fstabLine {uuid : String} (h : ∀ c ∈ uuid.toList, isWhitespace c = false)
    (fs mountpoint : String) : uuidField (fstabLine uuid fs mountpoint) = some uuid := by
  have hline : ∃ rest, (fstabLine uuid fs mountpoint).toList =
      ("UUID=".toList ++ uuid.toList) ++ ' ' :: rest := by
    unfold fstabLine
    dsimp only
    split_ifs
    all_goals
      simp only [String.toList_append, List.append_assoc]
      exact ⟨_, rfl⟩
  obtain ⟨rest, hrest⟩ := hline
  have hword : ∀ d ∈ "UUID=".toList ++ uuid.toList, isWhitespace d = false := by
    have hkey : "UUID=".toList.all (fun d => !isWhitespace d) = true := by decide
    refine List.forall_mem_append.2 ⟨fun d hd => ?_, h⟩
    simpa using List.all_eq_true.1 hkey d hd
  unfold uuidField
  rw [hrest, words_word hword (by simp) (by decide), List.head?_cons, Option.bind_some, stripPrefix,
    startsWith, String.toList_ofList]
  rw [if_pos (by simp), String.toList_ofList, List.drop_left, String.ofList_toList]

/-- What a turn of the loop does. -/
theorem prepareRow_eq_ok (h : prepareRow answers snapshot disk sectorSize acc mount = .ok acc') :
    ∃ device detected, safeDevice mount.partition = .ok device ∧
      lookupUuid answers device = .ok detected ∧
      (∀ c ∈ (trim mount.uuid).toList, isWhitespace c = false) ∧
      (trim mount.uuid ∈ acc.seenUuids ∧ acc' = { acc with skipped := acc.skipped + 1 } ∨
        trim mount.uuid ∉ acc.seenUuids ∧ ∃ fs mountpoint, mountpoint ∉ acc.seenMountpoints ∧
          device ∉ acc.seenPartitions ∧ acc' = { acc with
            prepared := acc.prepared ++ [⟨device, fs, mountpoint, fstabLine (trim mount.uuid) fs mountpoint⟩]
            seenMountpoints := acc.seenMountpoints ++ [mountpoint]
            seenPartitions := acc.seenPartitions ++ [device]
            seenUuids := acc.seenUuids ++ [trim mount.uuid] }) := by
  obtain ⟨probe, hprobe, h⟩ := bind_eq_ok.1 h
  obtain ⟨detected, hdetected, h⟩ := bind_eq_ok.1 h
  obtain ⟨uuid, huuid, h⟩ := bind_eq_ok.1 h
  obtain ⟨rfl, hplain⟩ := verifiedUuid_eq_ok huuid
  have hdevice : safeDevice mount.partition = .ok probe.1 := by
    obtain ⟨device, hsafe, hrest⟩ := bind_eq_ok.1 hprobe
    rw [hsafe]
    split at hrest
    · cases hrest
    · split_ifs at hrest
      cases hrest
      rfl
  refine ⟨probe.1, detected, hdevice, hdetected, hplain, ?_⟩
  by_cases hseen : trim mount.uuid ∈ acc.seenUuids
  · rw [if_pos hseen] at h
    cases h
    exact .inl ⟨hseen, rfl⟩
  · rw [if_neg hseen] at h
    obtain ⟨fs, hfs, h⟩ := bind_eq_ok.1 h
    obtain ⟨mountpoint, hmountpoint, h⟩ := bind_eq_ok.1 h
    obtain ⟨seen, hclaim, h⟩ := bind_eq_ok.1 h
    generalize (if mountpoint = "/home" then "/var/home" else mountpoint) = target at hclaim h
    unfold claimAssignment at hclaim
    split_ifs at hclaim with htaken hused
    cases hclaim
    cases h
    exact .inr ⟨hseen, fs, _, htaken, hused, rfl⟩

end Row

/-! ### The table -/

section Table

variable {answers : Answers} {snapshot : Except String LsblkSnapshot} {disk : String} {sectorSize : ℕ}
  {acc acc' : PrepareState} {mounts : List ManualMountInput}

/-- The sets of the loop are those of the prepared rows. -/
structure Tracks (acc : PrepareState) : Prop where
  mountpoints : acc.seenMountpoints = acc.prepared.map PreparedRow.mountpoint
  devices : acc.seenPartitions = acc.prepared.map PreparedRow.device
  distinctMountpoints : acc.seenMountpoints.Nodup
  distinctDevices : acc.seenPartitions.Nodup

/-- A prepared row and the row of the request that it was made from. -/
def Prepares (answers : Answers) (mount : ManualMountInput) (row : PreparedRow) : Prop :=
  safeDevice mount.partition = .ok row.device ∧ uuidField row.line = some (trim mount.uuid) ∧
    ∃ detected, lookupUuid answers row.device = .ok detected

theorem nodup_concat {l : List String} {a : String} (h : l.Nodup) (ha : a ∉ l) : (l ++ [a]).Nodup := by
  rw [← List.concat_eq_append]
  exact List.Nodup.concat ha h

/-- The loop over the rows of the request. -/
theorem prepareLoop_eq_ok (htracks : Tracks acc)
    (h : mounts.foldlM (prepareRow answers snapshot disk sectorSize) acc = .ok acc') :
    Tracks acc' ∧ ∃ rows, acc'.prepared = acc.prepared ++ rows ∧
      List.Forall₂ (Prepares answers) (keptMounts acc.seenUuids mounts) rows := by
  induction mounts generalizing acc with
  | nil =>
    cases h
    exact ⟨htracks, [], (List.append_nil _).symm, .nil⟩
  | cons mount mounts ih =>
    rw [List.foldlM_cons, bind_eq_ok] at h
    obtain ⟨between, hrow, hrest⟩ := h
    obtain ⟨device, detected, hdevice, hdetected, hplain, hturn⟩ := prepareRow_eq_ok hrow
    rcases hturn with ⟨hseen, rfl⟩ | ⟨hnew, fs, mountpoint, htaken, hused, rfl⟩
    · have htracks' : Tracks { acc with skipped := acc.skipped + 1 } := ⟨htracks.mountpoints,
        htracks.devices, htracks.distinctMountpoints, htracks.distinctDevices⟩
      have hrows := ih htracks' hrest
      rwa [keptMounts, if_pos hseen]
    · rw [keptMounts, if_neg hnew]
      have htracks' : Tracks { acc with
          prepared := acc.prepared ++ [⟨device, fs, mountpoint, fstabLine (trim mount.uuid) fs mountpoint⟩]
          seenMountpoints := acc.seenMountpoints ++ [mountpoint]
          seenPartitions := acc.seenPartitions ++ [device]
          seenUuids := acc.seenUuids ++ [trim mount.uuid] } := by
        constructor
        · simp [htracks.mountpoints]
        · simp [htracks.devices]
        · exact nodup_concat htracks.distinctMountpoints htaken
        · exact nodup_concat htracks.distinctDevices hused
      obtain ⟨hend, rows, hprepared, hrows⟩ := ih htracks' hrest
      have hrow' : Prepares answers mount
          ⟨device, fs, mountpoint, fstabLine (trim mount.uuid) fs mountpoint⟩ :=
        ⟨hdevice, uuidField_fstabLine hplain fs mountpoint, detected, hdetected⟩
      refine ⟨hend, ⟨device, fs, mountpoint, fstabLine (trim mount.uuid) fs mountpoint⟩ :: rows, ?_,
        List.Forall₂.cons hrow' hrows⟩
      rw [hprepared, List.append_assoc, List.singleton_append]

/-- What is prepared for a request. -/
theorem prepareRows_eq_ok {input : ManualMountsInput} (h : prepareRows answers input = .ok acc) :
    Tracks acc ∧ List.Forall₂ (Prepares answers) (keptMounts [] input.mounts) acc.prepared := by
  obtain ⟨disk, -, h⟩ := bind_eq_ok.1 h
  obtain ⟨snapshot, -, h⟩ := bind_eq_ok.1 h
  obtain ⟨sectorSize, -, h⟩ := bind_eq_ok.1 h
  have hstart : Tracks {} := ⟨rfl, rfl, List.nodup_nil, List.nodup_nil⟩
  obtain ⟨htracks, rows, hprepared, hrows⟩ := prepareLoop_eq_ok hstart h
  rw [List.nil_append] at hprepared
  exact ⟨htracks, hprepared ▸ hrows⟩

end Table

/-! ### The mounts -/

section Apply

variable {answers : Answers} {input : ManualMountsInput} {file file' : FstabFile}
  {result : ManualMountsResult} {acc : PrepareState}

theorem appendLine_eq_ok {fstab line : String} (h : appendLine fstab line file = (.ok (), file')) :
    appendFstab fstab line.toList file = .ok file' := by
  unfold appendLine at h
  split at h
  · rename_i found happend
    cases h
    exact happend
  · cases h

/-- A row that was mounted has a line that the fstab takes. -/
theorem applyMountRow_eq_ok {root fstab : String} {row : PreparedRow}
    (h : applyMountRow answers root fstab row file = (.ok (), file')) :
    Passes (validateFstabLine row.line.toList) := by
  unfold applyMountRow at h
  have hvalid : ∀ {start : FstabFile}, appendLine fstab row.line start = (.ok (), file') →
      Passes (validateFstabLine row.line.toList) := fun happend =>
    (appendFstab_eq_ok.1 (appendLine_eq_ok happend)).2.1
  by_cases hswap : row.fs = "linux-swap"
  · rw [if_neg (not_not.2 hswap)] at h
    exact hvalid h
  · rw [if_pos hswap] at h
    obtain ⟨done, mounted, hmount, happend⟩ := Action.bind_eq_ok.1 h
    exact hvalid happend

/-- A request that was applied. -/
theorem apply_eq_ok (h : apply answers input file = (.ok result, file')) :
    ∃ acc, prepareRows answers input = .ok acc ∧
      ∀ row ∈ acc.prepared, Passes (validateFstabLine row.line.toList) := by
  obtain ⟨root, s₁, hroot, h⟩ := Action.bind_eq_ok.1 h
  obtain ⟨isDirectory, s₂, hdirectory, h⟩ := Action.bind_eq_ok.1 h
  obtain ⟨-, h⟩ := Action.guard_eq_ok.1 h
  obtain ⟨fstab, s₃, hfstab, h⟩ := Action.bind_eq_ok.1 h
  obtain ⟨-, h⟩ := Action.guard_eq_ok.1 h
  obtain ⟨acc, s₄, hprepared, h⟩ := Action.bind_eq_ok.1 h
  obtain ⟨done, s₅, hrows, -⟩ := Action.bind_eq_ok.1 h
  rw [Action.check_apply, Prod.mk.injEq] at hprepared
  refine ⟨acc, hprepared.1, fun row hrow => ?_⟩
  obtain ⟨start, stop, hmounted⟩ := Action.of_forM_eq_ok hrows row hrow
  exact applyMountRow_eq_ok hmounted

/-- What holds of the rows of the request and of the rows that are prepared for them. -/
theorem forall_mem_congr {α β : Type} {R : α → β → Prop} {P : α → Prop} {Q : β → Prop} {l : List α}
    {l' : List β} (h : List.Forall₂ R l l') (hiff : ∀ a b, R a b → (P a ↔ Q b)) :
    (∀ a ∈ l, P a) ↔ ∀ b ∈ l', Q b := by
  induction h with
  | nil => exact iff_of_true (fun _ hnone => nomatch hnone) fun _ hnone => nomatch hnone
  | cons hab _ ih => rw [List.forall_mem_cons, List.forall_mem_cons, hiff _ _ hab, ih]

theorem map_uuidField {mounts : List ManualMountInput} {rows : List PreparedRow}
    (h : List.Forall₂ (Prepares answers) mounts rows) :
    (rows.map fun row => uuidField row.line) = (mounts.map fun mount => trim mount.uuid).map some := by
  induction h with
  | nil => rfl
  | cons hrow _ ih => rw [List.map_cons, List.map_cons, List.map_cons, ih, hrow.2.1]

/-- Every request that is applied, with whatever the system answers, and however UUIDs are told apart. -/
theorem apply_sound_iff (same : String → String → Prop)
    (h : apply answers input file = (.ok result, file'))
    (hprepared : prepareRows answers input = .ok acc) :
    Sound same answers acc.prepared ↔
      (∀ mount ∈ keptMounts [] input.mounts, MatchesProbe same answers mount) ∧
        CaseDistinct (keptMounts [] input.mounts) := by
  obtain ⟨acc', hacc', hvalid⟩ := apply_eq_ok h
  rw [hprepared, Except.ok.injEq] at hacc'
  subst hacc'
  obtain ⟨htracks, hrows⟩ := prepareRows_eq_ok hprepared
  have hidentity : (∀ mount ∈ keptMounts [] input.mounts, MatchesProbe same answers mount) ↔
      ∀ row ∈ acc.prepared, ∃ uuid probed, uuidField row.line = some uuid ∧
        lookupUuid answers row.device = .ok probed ∧ same uuid probed := by
    refine forall_mem_congr hrows fun mount row hrow => ?_
    obtain ⟨hdevice, hfield, detected, hdetected⟩ := hrow
    unfold MatchesProbe
    constructor
    · rintro ⟨device, probed, hdevice', hprobed, hsame⟩
      rw [hdevice, Except.ok.injEq] at hdevice'
      exact ⟨_, probed, hfield, hdevice' ▸ hprobed, hsame⟩
    · rintro ⟨uuid, probed, hfield', hprobed, hsame⟩
      rw [hfield, Option.some.injEq] at hfield'
      exact ⟨row.device, probed, hdevice, hprobed, hfield' ▸ hsame⟩
  have huuids : ((acc.prepared.map fun row => uuidField row.line).Pairwise fun first second =>
      ∀ u ∈ first, ∀ v ∈ second, eqIgnoreAsciiCase u v = false) ↔
      CaseDistinct (keptMounts [] input.mounts) := by
    rw [map_uuidField hrows, List.pairwise_map]
    simp [CaseDistinct]
  rw [hidentity, ← huuids]
  constructor
  · exact fun hsound => ⟨hsound.identity, hsound.uuids⟩
  · rintro ⟨hident, hpairs⟩
    exact ⟨hvalid, hident, htracks.mountpoints ▸ htracks.distinctMountpoints,
      htracks.devices ▸ htracks.distinctDevices, hpairs⟩

end Apply

/-! ### Requests -/

/-- A disk with two ext4 partitions, probed twice. -/
def twoPartitions (blkid : String → Except String String) : Answers where
  root := .ok true
  lsblk _ := .ok (.ok ⟨[{ name := some "/dev/sda", deviceType := some "disk"
                          children := [
                            { name := some "/dev/sda3", deviceType := some "part", partn := some 3
                              size := some 1073741824, partuuid := some "aaaa-03" },
                            { name := some "/dev/sda4", deviceType := some "part", partn := some 4
                              size := some 1073741824, partuuid := some "aaaa-04" }] }]⟩)
  sectorSize _ := .ok 512
  blkid
  mount _ _ _ := .ok ()

/-- A request for some rows. -/
def request (mounts : List ManualMountInput) : ManualMountsInput where
  configRoot := "/mnt/target"
  fstabPath := "/mnt/target/etc/fstab"
  disk := "/dev/sda"
  mounts

/-- Two partitions with filesystems of their own. -/
def ownUuids : Answers :=
  twoPartitions fun device => .ok (if device = "/dev/sda3" then "1a-2" else "1b-2")

/-- A row for each of them. -/
def ownRows : ManualMountsInput :=
  request [⟨"/dev/sda3", "/data", "ext4", "1A-2"⟩, ⟨"/dev/sda4", "/home", "xfs", "1b-2"⟩]

theorem two_rows_sound : ∃ acc, prepareRows ownUuids ownRows = .ok acc ∧
    Sound (fun u v => eqIgnoreAsciiCase u v = true) ownUuids acc.prepared := by
  have hresult : (apply ownUuids ownRows .absent).1 = .ok ⟨2, 0⟩ := by decide
  have happly := (Prod.mk.eta (p := apply ownUuids ownRows .absent)).symm
  rw [hresult] at happly
  have hkept : keptMounts [] ownRows.mounts = ownRows.mounts := by decide
  have hdistinct : CaseDistinct ownRows.mounts := by
    unfold CaseDistinct
    decide
  have hprepared : prepareRows ownUuids ownRows = .ok {
      prepared := [⟨"/dev/sda3", "ext4", "/data", "UUID=1A-2 /data ext4 defaults 0 2\n"⟩,
                   ⟨"/dev/sda4", "xfs", "/var/home", "UUID=1b-2 /var/home xfs defaults 0 2\n"⟩]
      seenMountpoints := ["/data", "/var/home"]
      seenPartitions := ["/dev/sda3", "/dev/sda4"]
      seenUuids := ["1A-2", "1b-2"] } := by decide
  refine ⟨_, hprepared, (apply_sound_iff _ happly hprepared).2 ?_⟩
  rw [hkept]
  refine ⟨List.forall_mem_cons.2 ⟨?_, List.forall_mem_singleton.2 ?_⟩, hdistinct⟩
  · exact ⟨"/dev/sda3", "1a-2", by decide, by decide, by decide⟩
  · exact ⟨"/dev/sda4", "1b-2", by decide, by decide, by decide⟩

/-- A PARTUUID is accepted and written where the UUID of the filesystem belongs; and clones of one filesystem
are both written when their UUIDs differ in case. -/
theorem partuuid_written_as_uuid :
    (∃ acc, (apply (twoPartitions fun _ => .ok "bbbb-03")
        (request [⟨"/dev/sda3", "/data", "ext4", "aaaa-03"⟩]) .absent).1 = .ok ⟨1, 0⟩ ∧
      prepareRows (twoPartitions fun _ => .ok "bbbb-03")
        (request [⟨"/dev/sda3", "/data", "ext4", "aaaa-03"⟩]) = .ok acc ∧
      ¬ Sound (fun u v => eqIgnoreAsciiCase u v = true) (twoPartitions fun _ => .ok "bbbb-03")
        acc.prepared) ∧
    ∃ acc, (apply (twoPartitions fun _ => .ok "1a-2")
        (request [⟨"/dev/sda3", "/data", "ext4", "1a-2"⟩, ⟨"/dev/sda4", "/home", "ext4", "1A-2"⟩])
          .absent).1 = .ok ⟨2, 0⟩ ∧
      prepareRows (twoPartitions fun _ => .ok "1a-2")
        (request [⟨"/dev/sda3", "/data", "ext4", "1a-2"⟩, ⟨"/dev/sda4", "/home", "ext4", "1A-2"⟩]) =
          .ok acc ∧
      ¬ Sound (fun u v => eqIgnoreAsciiCase u v = true) (twoPartitions fun _ => .ok "1a-2")
        acc.prepared := by
  constructor
  · refine ⟨{ prepared := [⟨"/dev/sda3", "ext4", "/data", "UUID=aaaa-03 /data ext4 defaults 0 2\n"⟩]
              seenMountpoints := ["/data"]
              seenPartitions := ["/dev/sda3"]
              seenUuids := ["aaaa-03"] }, by decide, by decide, fun hsound => ?_⟩
    obtain ⟨uuid, probed, hfield, hprobed, hsame⟩ := hsound.identity _ List.mem_cons_self
    have huuid : uuid = "aaaa-03" := Option.some.inj (hfield.symm.trans (by decide))
    have hother : probed = "bbbb-03" := Except.ok.inj (hprobed.symm.trans (by decide))
    subst huuid hother
    revert hsame
    decide
  · refine ⟨{ prepared := [⟨"/dev/sda3", "ext4", "/data", "UUID=1a-2 /data ext4 defaults 0 2\n"⟩,
                           ⟨"/dev/sda4", "ext4", "/var/home", "UUID=1A-2 /var/home ext4 defaults 0 2\n"⟩]
              seenMountpoints := ["/data", "/var/home"]
              seenPartitions := ["/dev/sda3", "/dev/sda4"]
              seenUuids := ["1a-2", "1A-2"] }, by decide, by decide, fun hsound => ?_⟩
    have hpairs := hsound.uuids
    rw [List.map_cons, List.map_cons, List.map_nil, List.pairwise_pair] at hpairs
    have hdistinct := hpairs "1a-2" (by decide) "1A-2" (by decide)
    revert hdistinct
    decide

end Kyth.Manual
