import Kyth.Lib.Toml
import Kyth.Lib.Utf8Text

/-!
# Backup configurations (`system/backup_config.rs`, `system/save_cloud.rs`)

Both configurations are written as TOML by hand, the texts in the `{:?}` form of Rust, and read by the
`toml` crate. A file that is not read falls back to the defaults. The parser and the Unicode tables of
the standard library are given.
-/

namespace Kyth.Backup

open Str Toml Utf8Text

/-! ### The `{:?}` form of a string -/

/-- The tables of the standard library, for characters that are not ASCII. -/
structure Unicode where
  isPrintable : Char → Bool
  isGraphemeExtend : Char → Bool

/-- `\u{…}` -/
def unicodeEscape (c : Char) : List Char := ['\\', 'u', '\x7b'] ++ Nat.toDigits 16 c.toNat ++ ['\x7d']

/-- The characters that are written as they are. -/
def isPlain (unicode : Unicode) (c : Char) : Bool :=
  if c.toNat < 128 then 0x20 ≤ c.toNat && c.toNat < 0x7F
  else !unicode.isGraphemeExtend c && unicode.isPrintable c

def debugChar (unicode : Unicode) (c : Char) : List Char :=
  if c = Char.ofNat 0 then ['\\', '0']
  else if c = '\t' then ['\\', 't']
  else if c = '\r' then ['\\', 'r']
  else if c = '\n' then ['\\', 'n']
  else if c = '\\' then ['\\', '\\']
  else if c = '"' then ['\\', '"']
  else if isPlain unicode c then [c]
  else unicodeEscape c

/-- `{:?}` of a string -/
def debug (unicode : Unicode) (text : List Char) : List Char :=
  '"' :: (text.flatMap (debugChar unicode) ++ ['"'])

/-- `{}` of a Boolean -/
def boolText (b : Bool) : List Char := if b then "true".toList else "false".toList

/-! ### The configurations -/

/-- A line that is written. -/
inductive Item
  | comment (content : List Char)
  | text (key value : List Char)
  | flag (key : List Char) (value : Bool)

def Item.line (unicode : Unicode) : Item → List Char
  | .comment content => '#' :: content
  | .text key value => key ++ (" = ".toList ++ debug unicode value)
  | .flag key value => key ++ (" = ".toList ++ boolText value)

structure BackupConfig where
  repo : List Char
  btrfsSend : Bool
  onBattery : Bool
  remote : List Char
  enabled : Bool
  passwordFile : List Char
  forgetPolicy : List Char
  allowSameDisk : Bool
  deriving DecidableEq, Repr

/-- `DEFAULT_SAME_DISK_REPO` -/
def defaultSameDiskRepo : List Char := "/var/cache/kyth/backup".toList

/-- `DEFAULT_FORGET_POLICY` -/
def defaultForgetPolicy : List Char := "--keep-daily 7 --keep-weekly 4 --keep-monthly 6".toList

def BackupConfig.default : BackupConfig where
  repo := defaultSameDiskRepo
  btrfsSend := false
  onBattery := false
  remote := []
  enabled := false
  passwordFile := []
  forgetPolicy := defaultForgetPolicy
  allowSameDisk := false

/-- A text of the table, or a default for it. -/
def strKey (table : Table) (key : String) (fallback : List Char) : List Char :=
  ((get table key.toList).bind asStr).getD fallback

def boolKey (table : Table) (key : String) (fallback : Bool) : Bool :=
  ((get table key.toList).bind asBool).getD fallback

/-- What a parser makes of a file. -/
def readTable (parse : List Char → Option Table) (file : Option (List UInt8)) : Option Table :=
  (file.bind decode).bind parse

/-- `load` of `backup_config.rs` -/
def BackupConfig.load (parse : List Char → Option Table) (file : Option (List UInt8)) : BackupConfig :=
  match readTable parse file with
  | none => .default
  | some table =>
      { repo := strKey table "repo" defaultSameDiskRepo
        btrfsSend := boolKey table "btrfs_send" false
        onBattery := boolKey table "on_battery" false
        remote := strKey table "remote" []
        enabled := boolKey table "enabled" false
        passwordFile := strKey table "password_file" []
        forgetPolicy := strKey table "forget_policy" defaultForgetPolicy
        allowSameDisk := boolKey table "allow_same_disk" false }

def BackupConfig.items (config : BackupConfig) : List Item :=
  [.comment " Kyth backup full /home — opt-in: set enabled = true and".toList,
    .comment " `systemctl --user enable --now kyth-backup.timer` to schedule.".toList,
    .comment " Point repo at EXTERNAL media (e.g. /run/media/$USER/BACKUP/restic);".toList,
    .comment " the same-disk default is refused unless allow_same_disk = true.".toList,
    .text "repo".toList config.repo,
    .flag "btrfs_send".toList config.btrfsSend,
    .flag "on_battery".toList config.onBattery,
    .text "remote".toList config.remote,
    .flag "enabled".toList config.enabled,
    .text "password_file".toList config.passwordFile,
    .text "forget_policy".toList config.forgetPolicy,
    .flag "allow_same_disk".toList config.allowSameDisk]

/-- The bytes that `save` of `backup_config.rs` writes. -/
def BackupConfig.save (unicode : Unicode) (config : BackupConfig) : List UInt8 :=
  encode (document (config.items.map (Item.line unicode)))

structure SaveCloudConfig where
  repo : List Char
  remote : List Char
  onBattery : Bool
  passwordFile : List Char
  deriving DecidableEq, Repr

/-- `DEFAULT_REPO` -/
def defaultRepo : List Char := "/var/cache/kyth/saves".toList

def SaveCloudConfig.default : SaveCloudConfig where
  repo := defaultRepo
  remote := []
  onBattery := false
  passwordFile := []

/-- `load` of `save_cloud.rs` -/
def SaveCloudConfig.load (parse : List Char → Option Table) (file : Option (List UInt8)) :
    SaveCloudConfig :=
  match readTable parse file with
  | none => .default
  | some table =>
      { repo := strKey table "repo" defaultRepo
        remote := strKey table "remote" []
        onBattery := boolKey table "on_battery" false
        passwordFile := strKey table "password_file" [] }

def SaveCloudConfig.items (config : SaveCloudConfig) : List Item :=
  [.comment " Kyth save cloud — restic local + rclone remote, offline".toList,
    .text "repo".toList config.repo,
    .text "remote".toList config.remote,
    .flag "on_battery".toList config.onBattery,
    .text "password_file".toList config.passwordFile]

/-- The bytes that `save` of `save_cloud.rs` writes. -/
def SaveCloudConfig.save (unicode : Unicode) (config : SaveCloudConfig) : List UInt8 :=
  encode (document (config.items.map (Item.line unicode)))

end Kyth.Backup
