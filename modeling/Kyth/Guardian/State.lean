import Mathlib.Data.List.AList
import Mathlib.Data.Rat.Defs
import Mathlib.Tactic

/-!
# Guardian (`guardian.rs`)

Guardian keeps a history of what it recommended, what the user dismissed and which repairs ran. The
state file is loaded, changed in memory and saved; every save compacts repeated recommendations and
keeps the last 200 records. A history record is JSON in the source; here it has the fields that
Guardian reads, each `none` where the JSON has no value of that type, and the text of the others.
Times are the seconds of the source's clock.
-/

namespace Kyth.Guardian

/-- `HashMap<String, α>`. -/
abbrev NameMap (α : Type) := AList fun _ : String => α

/-- The risk of a recipe. -/
inductive Risk
  | safe
  | confirm
  | advisory
  deriving DecidableEq, Repr

/-- A repair, with the fields that the functions here read. -/
structure Recipe where
  id : String
  title : String
  component : String
  command : List String
  risk : Risk
  requiresAuth : Bool := false
  cooldown : ℕ
  deriving DecidableEq, Repr

/-- `recipes`. -/
def recipes : List Recipe :=
  [{ id := "audio.restart", title := "Restart audio services", component := "audio",
      command := ["systemctl", "--user", "restart", "pipewire.service",
      "pipewire-pulse.service", "wireplumber.service"], risk := .safe, cooldown := 900 },
    { id := "network.restart-user", title := "Restart the NetworkManager user integration",
      component := "network", command := ["systemctl", "--user", "restart",
      "plasma-nm.service"], risk := .safe, cooldown := 900 },
    { id := "flatpak.refresh-metadata", title := "Refresh Flatpak metadata",
      component := "flatpak", command := ["flatpak", "update", "--appstream", "--user",
      "--noninteractive"], risk := .safe, cooldown := 1800 },
    { id := "flatpak.repair-user", title := "Repair user Flatpak data", component := "flatpak",
      command := ["flatpak", "repair", "--user"], risk := .confirm, cooldown := 3600 },
    { id := "bluetooth.restart", title := "Restart Bluetooth", component := "bluetooth",
      command := ["sudo", "-A", "systemctl", "restart", "bluetooth.service"], risk := .confirm,
      requiresAuth := true, cooldown := 1800 },
    { id := "portal.restart-user", title := "Restart desktop portals", component := "portal",
      command := ["systemctl", "--user", "restart", "xdg-desktop-portal.service"],
      risk := .safe, cooldown := 900 },
    { id := "plasma.restart-user", title := "Restart Plasma shell", component := "plasma",
      command := ["systemctl", "--user", "restart", "plasma-plasmashell.service"],
      risk := .safe, cooldown := 900 },
    { id := "disk.review", title := "Review storage usage", component := "storage",
      command := [], risk := .advisory, cooldown := 3600 },
    { id := "storage.maint", title := "Run storage maintenance", component := "storage",
      command := ["/usr/bin/kyth-btrfs-maint"], risk := .safe, cooldown := 86400 },
    { id := "firmware.refresh", title := "Refresh firmware metadata", component := "firmware",
      command := ["flock", "-w", "10", "/run/kyth-fwupd.lock", "fwupdmgr", "refresh",
      "--force"], risk := .safe, cooldown := 43200 },
    { id := "display.reconfigure", title := "Re-apply display outputs", component := "display",
      command := ["systemctl", "--user", "restart", "plasma-kscreen.service"], risk := .safe,
      cooldown := 21600 },
    { id := "controller.repair", title := "Restart controller stack", component := "controller",
      command := ["sudo", "-A", "systemctl", "restart", "joycond.service"], risk := .confirm,
      requiresAuth := true, cooldown := 21600 },
    { id := "network.captive-fix", title := "Re-toggle networking for captive portals",
      component := "network", command := ["nmcli", "networking", "off"], risk := .safe,
      cooldown := 1800 },
    { id := "audio.sink-fallback", title := "Restore default audio sink", component := "audio",
      command := ["pactl", "list", "short", "sinks"], risk := .safe, cooldown := 900 },
    { id := "power.profile-fix", title := "Reset power profile to balanced",
      component := "power", command := ["powerprofilesctl", "set", "balanced"], risk := .safe,
      cooldown := 3600 },
    { id := "thermal.notify", title := "Thermal throttling detected", component := "thermal",
      command := [], risk := .advisory, cooldown := 3600 },
    { id := "storage.smart-warn", title := "SMART disk health at risk", component := "storage",
      command := [], risk := .advisory, cooldown := 86400 },
    { id := "memory.pressure-relief", title := "Memory pressure high", component := "memory",
      command := [], risk := .advisory, cooldown := 3600 },
    { id := "network.vpn-fix", title := "Restart always-on VPN connection",
      component := "network", command := ["nmcli", "-t", "-f", "NAME,TYPE,AUTOCONNECT",
      "connection", "show"], risk := .safe, cooldown := 1800 },
    { id := "network.vpn-dns-leak-check", title := "Check VPN DNS for leaks",
      component := "network", command := ["resolvectl", "status"], risk := .safe,
      cooldown := 1800 },
    { id := "network.vpn-dns-exclusive", title := "Pin VPN link to exclusive DNS",
      component := "network", command := ["resolvectl", "status"], risk := .confirm,
      requiresAuth := true, cooldown := 3600 },
    { id := "network.dns-flush", title := "Flush DNS cache", component := "network",
      command := ["resolvectl", "flush-caches"], risk := .safe, cooldown := 1800 },
    { id := "update.review-health", title := "Review update health", component := "updates",
      command := [], risk := .advisory, cooldown := 3600 }]

/-- A history record. -/
structure Entry where
  timestamp : Option ℚ := none
  recipeId : Option String := none
  action : Option String := none
  verified : Option Bool := none
  detail : Option String := none
  source : Option String := none
  rest : String := ""
  deriving DecidableEq

/-- The state of Guardian. The occurrences are `none` when the file has no object for them. -/
structure GuardianState where
  history : List Entry := []
  occurrences : Option (NameMap ℤ) := some ∅
  lastCheck : Option ℚ := none
  deriving DecidableEq

/-- `load_state`: a missing or corrupt file is the empty state. -/
def loadState (file : Option GuardianState) : GuardianState := file.getD {}

/-! ### The history -/

/-- The number of records that a save keeps. -/
def historyCap : ℕ := 200

/-- Drop the oldest records beyond the cap. -/
@[irreducible]
def capHistory (history : List Entry) : List Entry := history.drop (history.length - historyCap)

/-- A record with the action `recommended`. -/
def Entry.isRecommended (e : Entry) : Bool := e.action == some "recommended"

/-- The recipe of a record, empty when it has none. -/
def Entry.recipe (e : Entry) : String := e.recipeId.getD ""

/-- One turn of `coalesce_recommendations`: the compact list, and where it has the recommendation
of each recipe that is still open. -/
def coalesceStep (acc : NameMap ℕ × List Entry) (item : Entry) : NameMap ℕ × List Entry :=
  if item.recipe ≠ "" ∧ item.isRecommended then
    match acc.1.lookup item.recipe with
    | some previous => (acc.1, acc.2.set previous item)
    | none => (acc.1.insert item.recipe acc.2.length, acc.2 ++ [item])
  else if item.recipe ≠ "" then (acc.1.erase item.recipe, acc.2 ++ [item])
  else (acc.1, acc.2 ++ [item])

/-- `coalesce_recommendations`. -/
def coalesceRecommendations (history : List Entry) : List Entry :=
  (history.foldl coalesceStep (∅, [])).2

/-- The search of `append_history_record`, newest record first. -/
def replaceLatest (recipeId : String) (record : Entry) : List Entry → Option (List Entry)
  | [] => none
  | previous :: older =>
      if previous.recipeId ≠ some recipeId then
        (replaceLatest recipeId record older).map (previous :: ·)
      else if previous.isRecommended then some (record :: older)
      else none

/-- `append_history_record`. -/
def appendHistoryRecord (history : List Entry) (record : Entry) : List Entry :=
  match record.isRecommended, record.recipeId with
  | true, some recipeId =>
      match replaceLatest recipeId record history.reverse with
      | some replaced => replaced.reverse
      | none => history ++ [record]
  | _, _ => history ++ [record]

/-- `save_state_locked`: what a save writes. -/
def saveState (s : GuardianState) : GuardianState :=
  { s with history := capHistory (coalesceRecommendations s.history) }

/-! ### Recommendations and cooldowns -/

/-- `NOTIFY_THROTTLE_S`. -/
def notifyThrottle : ℚ := 6 * 3600

/-- One turn of the loop of `pending_recommendations`: the latest record of each recipe. -/
def latestStep (now : ℚ) (latest : NameMap (ℚ × Entry)) (item : Entry) : NameMap (ℚ × Entry) :=
  match item.recipeId, item.timestamp with
  | some recipeId, some timestamp =>
      if now - timestamp > notifyThrottle then latest
      else
        match latest.lookup recipeId with
        | some (previous, _) =>
            if previous ≤ timestamp then latest.insert recipeId (timestamp, item) else latest
        | none => latest.insert recipeId (timestamp, item)
  | _, _ => latest

/-- `pending_recommendations`: recipe and detail of every recommendation that is still open. -/
def pendingRecommendations (s : GuardianState) (now : ℚ) : List (String × String) :=
  ((s.history.foldl (latestStep now) ∅).entries.filter fun e => e.2.2.isRecommended).map
    fun e => (e.2.2.recipe, e.2.2.detail.getD "")

/-- `is_pending_recipe`. -/
def isPendingRecipe (s : GuardianState) (now : ℚ) (recipeId : String) : Bool :=
  (pendingRecommendations s now).any fun item => item.1 == recipeId

/-- The record of an execution that still cools the recipe down. -/
def Entry.cools (e : Entry) (now : ℚ) (recipe : Recipe) : Prop :=
  e.recipeId = some recipe.id ∧ e.action = some "executed" ∧ e.verified ≠ some false ∧
    now - e.timestamp.getD 0 < recipe.cooldown

instance (e : Entry) (now : ℚ) (recipe : Recipe) : Decidable (e.cools now recipe) :=
  inferInstanceAs (Decidable (_ ∧ _))

/-- `cooldown_active`. -/
def cooldownActive (s : GuardianState) (now : ℚ) (recipe : Recipe) : Bool :=
  s.history.any fun e => decide (e.cools now recipe)

/-! ### Operations -/

/-- The occurrences after a check that found symptoms of some components. -/
def countOccurrences (active : List String) (occurrences : NameMap ℤ) : NameMap ℤ :=
  recipes.foldl
    (fun occurrences recipe =>
      occurrences.insert recipe.component
        (if recipe.component ∈ active then
          min ((occurrences.lookup recipe.component).getD 0 + 1) (2 ^ 63 - 1)
        else 0))
    occurrences

/-- `record_service_check` up to its save. -/
def recordServiceCheck (s : GuardianState) (active : List String) (decisions : List Entry)
    (now : ℚ) : Except String GuardianState :=
  match s.occurrences with
  | none => .error "Guardian occurrences are unavailable"
  | some occurrences =>
      .ok
        { history :=
            capHistory (coalesceRecommendations (decisions.foldl appendHistoryRecord s.history))
          occurrences := some (countOccurrences active occurrences)
          lastCheck := some now }

/-- The record of a dismissal. -/
def dismissalRecord (recipeId : String) (recordedAt : ℚ) : Entry where
  timestamp := some recordedAt
  recipeId := some recipeId
  source := some "hub"
  action := some "dismissed"
  detail := some "Dismissed from the Home screen."

/-- `dismiss_recommendation` up to its save. -/
def dismissRecommendation (s : GuardianState) (recipeId : String) (now recordedAt : ℚ) :
    Except String GuardianState :=
  if isPendingRecipe s now recipeId then
    .ok { s with history := s.history ++ [dismissalRecord recipeId recordedAt] }
  else .error "recommendation is no longer pending"

/-- `NOT_ELIGIBLE`. -/
def notEligible : String := "recipe is not eligible for automatic execution"

/-- The gate of `execute_recipe`: the recipe that may run now. `is_pending_recipe` and
`cooldown_active` read the clock one after the other. -/
def admitRecipe (s : GuardianState) (recipeId : String) (askpass : Bool) (pendingNow now : ℚ) :
    Except String Recipe :=
  match recipes.find? fun recipe => recipe.id == recipeId with
  | none => .error notEligible
  | some recipe =>
      if recipe.command = [] ∨ recipe.risk = .advisory then .error notEligible
      else if isPendingRecipe s pendingNow recipeId = false then
        .error "recipe is not currently recommended by Guardian"
      else if cooldownActive s now recipe then .error "repair cooldown is active"
      else if recipe.requiresAuth ∧ askpass = false then
        .error (recipe.title ++ " needs an administrator password, and this session has no " ++
          "askpass helper — run it from a terminal")
      else .ok recipe

/-- The record of an execution. -/
def executionRecord (recipe : Recipe) (result : Except String String) (verifies : Bool)
    (recordedAt : ℚ) : Entry where
  timestamp := some recordedAt
  recipeId := some recipe.id
  source := some "hub"
  action := some "executed"
  verified := some (result.isOk && verifies)
  detail := some (match result with | .ok detail | .error detail => detail)

/-- `execute_recipe` up to its save, after its command and its verification answered. -/
def recordExecution (s : GuardianState) (recipe : Recipe) (result : Except String String)
    (verifies : Bool) (recordedAt : ℚ) : GuardianState :=
  { s with
    history := capHistory (s.history ++ [executionRecord recipe result verifies recordedAt]) }

end Kyth.Guardian
