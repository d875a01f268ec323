import Kyth.Lib.TextLines
import Mathlib.Data.List.Dedup
import Mathlib.Data.String.Basic

/-!
# The hardware policy (`system/hardware_policy.rs`)

`collect_inventory_from` reads what identifies a machine from `/sys` and `/proc/cpuinfo`, and `evaluate`
selects the profiles and the quirks of a policy that match it. A selector lists patterns, which
`glob_match` compares with a table of what the beginnings of the value and of the pattern have to do
with each other. The files, the Unicode lower case (`lower`) and the clock are given.
-/

namespace Kyth.Hardware

open Str TextLines

/-! ### The inventory -/

structure Device where
  bus : String
  vendor : String
  device : String
  classCode : String
  driver : String
  name : String
  deriving DecidableEq, Repr

structure Inventory where
  cpuVendor : String
  dmiVendor : String
  dmiProduct : String
  dmiBoard : String
  pci : List Device
  usb : List Device
  deriving DecidableEq, Repr

/-- A directory of a PCI device: its files, if they can be read, and the name behind its driver link. -/
structure PciNode where
  vendor : Option String
  device : Option String
  class' : Option String
  driver : String

/-- A directory of a USB device. -/
structure UsbNode where
  name : String
  idVendor : Option String
  idProduct : Option String
  product : Option String
  driver : String

/-- The files that the inventory is read from. The directories are sorted. -/
structure Machine where
  pci : List PciNode
  usb : List UsbNode
  sysVendor : Option String
  productName : Option String
  boardName : Option String
  cpuinfo : Option String

variable (lower : String → String)

def readText (file : Option String) : String := trim (file.getD "")

/-- `trim_start_matches("0x")` -/
def trimHex : List Char → List Char
  | '0' :: 'x' :: rest => trimHex rest
  | rest => rest

def sysfsHex (file : Option String) : String := String.ofList (trimHex (lower (readText file)).toList)

def pciDevice (node : PciNode) : Option Device :=
  let vendor := sysfsHex lower node.vendor
  let device := sysfsHex lower node.device
  if vendor = "" ∨ device = "" then none
  else some ⟨"pci", vendor, device, sysfsHex lower node.class', node.driver, ""⟩

/-- A device without a driver of its own has the first one of its interfaces. -/
def usbDriver (nodes : List UsbNode) (node : UsbNode) : String :=
  if node.driver ≠ "" then node.driver
  else (((nodes.filter fun child => startsWith child.name (node.name ++ ":")).map UsbNode.driver).find?
    (· ≠ "")).getD ""

def usbDevice (nodes : List UsbNode) (node : UsbNode) : Option Device :=
  let vendor := sysfsHex lower node.idVendor
  let device := sysfsHex lower node.idProduct
  if vendor = "" ∨ device = "" then none
  else some ⟨"usb", vendor, device, "", usbDriver nodes node, readText node.product⟩

/-- The value of a line that begins with `vendor_id:`. -/
def vendorLine (line : List Char) : Option (List Char) :=
  (line.dropPrefix? "vendor_id".toList).bind fun value => value.dropPrefix? [':']

/-- The vendor in the text of `/proc/cpuinfo`. -/
def cpuVendor (cpuinfo : String) : String :=
  ((lines cpuinfo.toList).findSome? fun line =>
    (vendorLine line).map fun value => trim (String.ofList value)).getD ""

/-- `collect_inventory_from` -/
def collectInventoryFrom (machine : Machine) : Inventory where
  cpuVendor := cpuVendor (machine.cpuinfo.getD "")
  dmiVendor := readText machine.sysVendor
  dmiProduct := readText machine.productName
  dmiBoard := readText machine.boardName
  pci := machine.pci.filterMap (pciDevice lower)
  usb := machine.usb.filterMap (usbDevice lower machine.usb)

/-! ### Patterns -/

/-- The first row of the table: the empty value. `left` is the cell in front. -/
def firstCells : Bool → List Char → List Bool
  | _, [] => []
  | left, p :: pattern =>
      let cell := p == '*' && left
      cell :: firstCells cell pattern

def firstRow (pattern : List Char) : List Bool := true :: firstCells true pattern

/-- The cells of the row of `c` behind `left`, from the row above. -/
def rowCells (c : Char) : Bool → List Char → List Bool → List Bool
  | left, p :: pattern, diagonal :: above :: row =>
      let cell := if p = '*' then left || above else if p = '?' then diagonal else p == c && diagonal
      cell :: rowCells c cell pattern (above :: row)
  | _, _, _ => []

def nextRow (pattern : List Char) (row : List Bool) (c : Char) : List Bool :=
  false :: rowCells c false pattern row

def globMatch (value pattern : String) : Bool :=
  let value := (lower value).toList
  let pattern := (lower pattern).toList
  (value.foldl (nextRow pattern) (firstRow pattern)).getLastD false

def patternsMatch (value : String) (patterns : List String) : Bool :=
  patterns.isEmpty || patterns.any (globMatch lower value)

/-! ### Selectors -/

structure DeviceSelector where
  vendor : String
  devices : List String
  classes : List String
  drivers : List String
  deriving DecidableEq, Repr

/-- What an entry of the policy is for. -/
structure Match where
  always : Bool
  pci : List DeviceSelector
  usb : List DeviceSelector
  cpuVendors : List String
  dmiVendors : List String
  dmiProducts : List String
  dmiBoards : List String
  deriving DecidableEq, Repr

def deviceMatches (device : Device) (selector : DeviceSelector) : Bool :=
  let vendor := lower selector.vendor
  let devices := selector.devices.map lower
  let classes := selector.classes.map lower
  (vendor == "" || device.vendor == vendor) && (devices.isEmpty || devices.any (· == device.device)) &&
    (classes.isEmpty || classes.any (startsWith device.classCode)) &&
    (selector.drivers.isEmpty || selector.drivers.any (· == device.driver))

def selects (inventory : Inventory) (selector : Match) : Bool :=
  if selector.always then true
  else if !patternsMatch lower inventory.cpuVendor selector.cpuVendors ||
      !patternsMatch lower inventory.dmiVendor selector.dmiVendors ||
      !patternsMatch lower inventory.dmiProduct selector.dmiProducts ||
      !patternsMatch lower inventory.dmiBoard selector.dmiBoards then false
  else if selector.pci.any fun entry => !inventory.pci.any (deviceMatches lower · entry) then false
  else if selector.usb.any fun entry => !inventory.usb.any (deviceMatches lower · entry) then false
  else !selector.pci.isEmpty || !selector.usb.isEmpty || !selector.cpuVendors.isEmpty ||
    !selector.dmiVendors.isEmpty || !selector.dmiProducts.isEmpty || !selector.dmiBoards.isEmpty

/-! ### The policy -/

structure Profile where
  id : String
  priority : ℤ
  imageVariant : String
  capabilities : List String
  selector : Match
  deriving DecidableEq, Repr

structure Quirk where
  id : String
  expiresOn : String
  selector : Match
  deriving DecidableEq, Repr

structure Policy where
  policyRevision : String
  profiles : List Profile
  quirks : List Quirk

structure Evaluation where
  policyRevision : String
  policyDigest : String
  inventory : Inventory
  profiles : List Profile
  /-- The quirks, and whether they are expired. -/
  quirks : List (Quirk × Bool)
  capabilities : List String
  recommendedVariant : String
  warnings : List String

/-- A number with zeros in front. -/
def padded (width : ℕ) (n : ℤ) : String :=
  let digits := Nat.toDigits 10 n.toNat
  String.ofList (List.replicate (width - digits.length) '0' ++ digits)

/-- `current_date_utc`, `seconds` after 1970. Division truncates. -/
def currentDateUtc (seconds : ℕ) : String :=
  let days : ℤ := (seconds / 86400 : ℕ)
  let z := days + 719468
  let era := (if 0 ≤ z then z else z - 146096).tdiv 146097
  let doe := z - era * 146097
  let yoe := (doe - doe.tdiv 1460 + doe.tdiv 36524 - doe.tdiv 146096).tdiv 365
  let year := yoe + era * 400
  let doy := doe - (365 * yoe + yoe.tdiv 4 - yoe.tdiv 100)
  let mp := (5 * doy + 2).tdiv 153
  let day := doy - (153 * mp + 2).tdiv 5 + 1
  let month := mp + if mp < 10 then 3 else -9
  let year := year + if month ≤ 2 then 1 else 0
  padded 4 year ++ "-" ++ padded 2 month ++ "-" ++ padded 2 day

def Quirk.isExpired (quirk : Quirk) (today : String) : Bool :=
  quirk.expiresOn ≠ "" && decide (quirk.expiresOn < today)

/-- `expired_quirks` -/
def expiredQuirks (policy : Policy) (seconds : ℕ) : List String :=
  (policy.quirks.filter (·.isExpired (currentDateUtc seconds))).map Quirk.id

/-- The order of the profiles: by priority, then by name. -/
def Profile.le (p q : Profile) : Bool :=
  decide (p.priority < q.priority ∨ p.priority = q.priority ∧ p.id ≤ q.id)

/-- `evaluate` -/
def evaluate (policy : Policy) (policyDigest : String) (seconds : ℕ) (inventory : Inventory) :
    Evaluation :=
  let profiles := (policy.profiles.filter fun profile => selects lower inventory profile.selector).mergeSort
    Profile.le
  let today := currentDateUtc seconds
  let quirks := policy.quirks.filter fun quirk => selects lower inventory quirk.selector
  { policyRevision := policy.policyRevision
    policyDigest := policyDigest
    inventory := inventory
    profiles := profiles
    quirks := quirks.map fun quirk => (quirk, quirk.isExpired today)
    capabilities := (profiles.flatMap Profile.capabilities).dedup.mergeSort (decide <| · ≤ ·)
    recommendedVariant := ((profiles.getLast?.map Profile.imageVariant).filter (· ≠ "")).getD "universal"
    warnings := (quirks.filter (·.isExpired today)).map fun quirk =>
      "quirk " ++ quirk.id ++ " expired on " ++ quirk.expiresOn ++ " and needs review" }

end Kyth.Hardware
