import Kyth.Lib.Check
import Kyth.Lib.Str
import Mathlib.Data.List.MinMax

/-!
# The battery check before an installation (`power_check`)

The supplies are read in the order of a directory listing. A battery that cannot be judged fails the check;
otherwise one battery with the least charge decides it, whatever the others do.

`sound_iff` says when that decision does not depend on the order and lets no installation start while a
battery of the system runs empty.
-/

namespace Kyth.Power

open Str Check

/-- What a supply is there for, as the kernel reports it. -/
inductive Scope
  | system
  | device
  deriving DecidableEq, Repr

/-- A directory below `/sys/class/power_supply`: the files that the source reads, as far as they can be read.
It does not look at the scope of a battery, nor at whether a supply is online. -/
structure SupplyEntry where
  name : String
  kind : Except String String
  capacity : Option String := none
  status : Option String := none
  scope : Scope := .system
  online : Bool := false

/-- `PowerCheck`. -/
structure PowerCheck where
  status : String
  detail : String
  deriving DecidableEq, Repr

/-- A battery with a capacity and a status that can be judged. -/
structure Battery where
  capacity : ℕ
  status : String
  deriving DecidableEq, Repr

/-- The directory of the supplies. -/
inductive SupplyDirectory
  | absent
  /-- It was there a moment ago. -/
  | vanished
  | unreadable (error : String)
  /-- The entries in the order of the listing, where an entry can fail to be read. -/
  | listed (entries : List (Except String SupplyEntry))

def noBattery : PowerCheck := ⟨"pass", "No battery power constraint detected"⟩

/-- The detail for a battery that cannot be judged. -/
def unsafeDetail (path : String) : String :=
  "Could not determine a safe battery power state for " ++ path ++
    ". Connect external power before installing."

/-- One turn of the loop over the entries: a battery, an entry that does not count, or a failed check. -/
def inspect (root : String) : Except String SupplyEntry → Except PowerCheck (Option Battery)
  | .error error => throw ⟨"fail", "Could not inspect battery power state: " ++ error⟩
  | .ok entry =>
      match entry.kind with
      | .error error =>
          if startsWith entry.name "BAT" then
            throw ⟨"fail", "Could not read battery power state: " ++ error⟩
          else pure none
      | .ok kind =>
          if trim kind ≠ "Battery" then pure none
          else
            match entry.capacity.bind fun value => parseUnsigned 8 (trim value).toList,
              entry.status.map fun value => toAsciiLowercase (trim value) with
            | some capacity, some status =>
                if capacity ≤ 100 ∧ status ∈ ["charging", "discharging", "not charging", "full"] then
                  pure (some ⟨capacity, status⟩)
                else throw ⟨"fail", unsafeDetail (root ++ "/" ++ entry.name)⟩
            | _, _ => throw ⟨"fail", unsafeDetail (root ++ "/" ++ entry.name)⟩

/-- The loop over the entries. -/
def collect (root : String) (entries : List (Except String SupplyEntry)) :
    Except PowerCheck (List Battery) :=
  entries.foldlM (fun batteries entry => do
    match ← inspect root entry with
    | some battery => pure (batteries ++ [battery])
    | none => pure batteries) []

/-- A battery that is not being charged. -/
def Battery.draws (battery : Battery) : Bool :=
  battery.status == "discharging" || battery.status == "not charging"

/-- The decision: the first of the batteries with the least charge is looked at. -/
def decideBatteries (batteries : List Battery) : PowerCheck :=
  match batteries.argmin Battery.capacity with
  | none => noBattery
  | some battery =>
      if battery.capacity < 20 ∧ battery.draws then
        ⟨"fail", "Battery is at " ++ toString battery.capacity ++
          "% and is not charging. Connect power before installing."⟩
      else ⟨"pass", "Battery is " ++ toString battery.capacity ++ "% (" ++ battery.status ++ ")"⟩

/-- `power_check_at`. -/
def powerCheckAt (root : String) : SupplyDirectory → PowerCheck
  | .absent => noBattery
  | .vanished => noBattery
  | .unreadable error => ⟨"fail", "Could not read battery power state: " ++ error⟩
  | .listed entries =>
      match collect root entries with
      | .error check => check
      | .ok batteries => decideBatteries batteries

/-- `power_check`. -/
def powerCheck : SupplyDirectory → PowerCheck := powerCheckAt "/sys/class/power_supply"

/-! ### What the check should do -/

/-- The battery of an entry. -/
def batteryOf (root : String) (entry : Except String SupplyEntry) : Option Battery :=
  (inspect root entry).toOption.join

/-- An entry that fails the check by itself. -/
def Refused (root : String) (entry : Except String SupplyEntry) : Prop := ¬ Passes (inspect root entry)

/-- An online supply that feeds the whole system. -/
def SupplyEntry.isMainsOnline (entry : SupplyEntry) : Prop :=
  ∃ kind, entry.kind = .ok kind ∧ trim kind = "Mains" ∧ entry.online = true

/-- A battery of the system discharges below the threshold and no mains supply is online. -/
def RunsEmpty (root : String) (entries : List (Except String SupplyEntry)) : Prop :=
  (∃ entry, .ok entry ∈ entries ∧ entry.scope = .system ∧ ∃ battery,
    batteryOf root (.ok entry) = some battery ∧ battery.capacity < 20 ∧
      battery.status = "discharging") ∧
    ∀ entry, .ok entry ∈ entries → ¬ entry.isMainsOnline

/-- Every order of the entries leads to the same status, and no order to a pass while a battery of the system
runs empty. -/
def Sound (root : String) (entries : List (Except String SupplyEntry)) : Prop :=
  ∀ listing, listing.Perm entries →
    (powerCheckAt root (.listed listing)).status = (powerCheckAt root (.listed entries)).status ∧
      (RunsEmpty root entries → (powerCheckAt root (.listed listing)).status ≠ "pass")

/-- A battery with the least charge, below the threshold. -/
def IsLowest (root : String) (entries : List (Except String SupplyEntry)) (battery : Battery) : Prop :=
  battery ∈ entries.filterMap (batteryOf root) ∧ battery.capacity < 20 ∧
    ∀ other ∈ entries.filterMap (batteryOf root), battery.capacity ≤ other.capacity

/-- Some entry fails the check by itself; or there are batteries with the least charge and none of them is
being charged; or all of them are, and no battery of the system runs empty. -/
def Settled (root : String) (entries : List (Except String SupplyEntry)) : Prop :=
  (∃ entry ∈ entries, Refused root entry) ∨
    ((∃ battery, IsLowest root entries battery) ∧
      ∀ battery, IsLowest root entries battery → battery.draws = true) ∨
    ((∀ battery, IsLowest root entries battery → battery.draws = false) ∧ ¬ RunsEmpty root entries)

/-! ### The loop -/

section Collect

variable {root : String} {entries listing : List (Except String SupplyEntry)} {batteries : List Battery}

theorem collect_eq_ok :
    collect root entries = .ok batteries ↔
      (∀ entry ∈ entries, Passes (inspect root entry)) ∧
        batteries = entries.filterMap (batteryOf root) := by
  have hfrom : ∀ start, entries.foldlM (fun batteries entry => do
      match ← inspect root entry with
      | some battery => pure (batteries ++ [battery])
      | none => pure batteries) start = .ok batteries ↔
        (∀ entry ∈ entries, Passes (inspect root entry)) ∧
          batteries = start ++ entries.filterMap (batteryOf root) := by
    induction entries with
    | nil =>
      intro start
      refine ⟨fun h => ⟨fun _ hnone => (nomatch hnone), ?_⟩, fun h => ?_⟩
      · cases h
        simp
      · rw [h.2]
        simp
        rfl
    | cons entry entries ih =>
      intro start
      rw [List.foldlM_cons, List.forall_mem_cons]
      cases hentry : inspect root entry with
      | error check =>
        have hfails : ¬ Passes (Except.error check : Except PowerCheck (Option Battery)) :=
          not_passes_error check
        exact iff_of_false (fun h => nomatch h) fun h => hfails h.1.1
      | ok found =>
        have hbattery : batteryOf root entry = found := by rw [batteryOf, hentry]; rfl
        cases found with
        | none =>
          rw [List.filterMap_cons_none hbattery]
          exact (ih start).trans (and_congr_left' (and_iff_right ⟨none, rfl⟩).symm)
        | some battery =>
          rw [List.filterMap_cons_some hbattery]
          refine (ih (start ++ [battery])).trans ?_
          rw [List.append_assoc, List.singleton_append]
          exact and_congr_left' (and_iff_right ⟨some battery, rfl⟩).symm
  exact hfrom []

/-- An entry that fails the check fails it. -/
theorem inspect_error {entry : Except String SupplyEntry} {check : PowerCheck}
    (h : inspect root entry = .error check) : check.status = "fail" := by
  unfold inspect at h
  repeat' split at h
  all_goals first
    | cases h; rfl
    | cases h

/-- The loop stops at an entry that fails the check by itself. -/
theorem collect_error {check : PowerCheck} (h : collect root entries = .error check) :
    (∃ entry ∈ entries, Refused root entry) ∧ check.status = "fail" := by
  have hfrom : ∀ start, entries.foldlM (fun batteries entry => do
      match ← inspect root entry with
      | some battery => pure (batteries ++ [battery])
      | none => pure batteries) start = .error check →
      ∃ entry ∈ entries, inspect root entry = .error check := by
    clear h
    induction entries with
    | nil => exact fun _ h => nomatch h
    | cons entry entries ih =>
      intro start hrun
      rw [List.foldlM_cons] at hrun
      cases hentry : inspect root entry with
      | error check' =>
        rw [hentry] at hrun
        cases hrun
        exact ⟨entry, List.mem_cons_self, hentry⟩
      | ok found =>
        rw [hentry] at hrun
        cases found with
        | none =>
          obtain ⟨other, hother, herror⟩ := ih start hrun
          exact ⟨other, List.mem_cons_of_mem _ hother, herror⟩
        | some battery =>
          obtain ⟨other, hother, herror⟩ := ih (start ++ [battery]) hrun
          exact ⟨other, List.mem_cons_of_mem _ hother, herror⟩
  obtain ⟨entry, hentry, herror⟩ := hfrom [] h
  exact ⟨⟨entry, hentry, fun hpasses => not_passes_error check (herror ▸ hpasses)⟩, inspect_error herror⟩

/-- The status of a listing with an entry that fails the check by itself. -/
theorem status_of_refused (h : ∃ entry ∈ entries, Refused root entry) :
    (powerCheckAt root (.listed entries)).status = "fail" := by
  unfold powerCheckAt
  dsimp only
  cases hcollect : collect root entries with
  | error check => exact (collect_error hcollect).2
  | ok batteries =>
    obtain ⟨entry, hentry, hrefused⟩ := h
    exact absurd ((collect_eq_ok.1 hcollect).1 entry hentry) hrefused

/-- Otherwise the batteries decide. -/
theorem powerCheckAt_of_accepted (h : ¬ ∃ entry ∈ entries, Refused root entry) :
    powerCheckAt root (.listed entries) = decideBatteries (entries.filterMap (batteryOf root)) := by
  have hall : ∀ entry ∈ entries, Passes (inspect root entry) := fun entry hentry =>
    by_contra fun hrefused => h ⟨entry, hentry, hrefused⟩
  unfold powerCheckAt
  dsimp only
  rw [collect_eq_ok.2 ⟨hall, rfl⟩]

end Collect

/-! ### The decision -/

section Decide

variable {batteries : List Battery}

theorem status_pass_or_fail : (decideBatteries batteries).status = "pass" ∨
    (decideBatteries batteries).status = "fail" := by
  unfold decideBatteries
  split
  · exact .inl rfl
  · split_ifs
    · exact .inr rfl
    · exact .inl rfl

/-- The check fails when the battery it looks at is low and not being charged. -/
theorem status_fail_iff : (decideBatteries batteries).status = "fail" ↔
    ∃ battery, batteries.argmin Battery.capacity = some battery ∧ battery.capacity < 20 ∧
      battery.draws = true := by
  unfold decideBatteries
  cases hmin : batteries.argmin Battery.capacity with
  | none => simp [noBattery]
  | some battery =>
    by_cases hlow : battery.capacity < 20 ∧ battery.draws = true
    · simp only [hlow, and_self, if_true, true_iff]
      exact ⟨battery, rfl, hlow⟩
    · simp only [hlow, if_false]
      refine iff_of_false (by simp) ?_
      rintro ⟨other, hother, hotherLow⟩
      cases hother
      exact hlow hotherLow

end Decide

/-! ### The order of the entries -/

section Order

variable {root : String} {entries listing : List (Except String SupplyEntry)} {battery : Battery}

theorem isLowest_of_argmin
    (h : (entries.filterMap (batteryOf root)).argmin Battery.capacity = some battery)
    (hlow : battery.capacity < 20) : IsLowest root entries battery :=
  ⟨List.argmin_mem h, hlow, fun _ hother => List.le_of_mem_argmin hother h⟩

theorem isLowest_perm (h : listing.Perm entries) :
    IsLowest root listing battery ↔ IsLowest root entries battery := by
  have hmem := fun other => (h.filterMap (batteryOf root)).mem_iff (a := other)
  unfold IsLowest
  rw [hmem]
  simp only [hmem]

/-- Any battery with the least charge comes first in some order, and is the one that is looked at. -/
theorem exists_listing (h : IsLowest root entries battery) :
    ∃ listing : List (Except String SupplyEntry), listing.Perm entries ∧
      (listing.filterMap (batteryOf root)).argmin Battery.capacity = some battery := by
  obtain ⟨hmem, -, hleast⟩ := h
  obtain ⟨entry, hentry, hbattery⟩ := List.mem_filterMap.1 hmem
  obtain ⟨before, after, rfl⟩ := List.append_of_mem hentry
  have hperm : (before ++ entry :: after).Perm (entry :: (before ++ after)) := List.perm_middle
  refine ⟨entry :: (before ++ after), hperm.symm, ?_⟩
  have hsame := hperm.filterMap (batteryOf root)
  rw [List.filterMap_cons_some hbattery] at hsame ⊢
  rw [List.argmin_eq_some_iff]
  refine ⟨List.mem_cons_self, fun other hother => hleast other (hsame.mem_iff.2 hother), ?_⟩
  intro other _ _
  rw [List.idxOf_cons_self]
  exact Nat.zero_le _

/-- A listing without an entry that fails the check by itself: it fails exactly where the battery that is
looked at has the least charge, is low and is not being charged. -/
theorem status_listing (hperm : listing.Perm entries)
    (haccepted : ¬ ∃ entry ∈ entries, Refused root entry) :
    ((powerCheckAt root (.listed listing)).status = "pass" ∨
      (powerCheckAt root (.listed listing)).status = "fail") ∧
    ((powerCheckAt root (.listed listing)).status = "fail" ↔ ∃ battery,
      (listing.filterMap (batteryOf root)).argmin Battery.capacity = some battery ∧
        IsLowest root entries battery ∧ battery.draws = true) := by
  have haccepted' : ¬ ∃ entry ∈ listing, Refused root entry := fun ⟨entry, hentry, hrefused⟩ =>
    haccepted ⟨entry, hperm.mem_iff.1 hentry, hrefused⟩
  rw [powerCheckAt_of_accepted haccepted']
  refine ⟨status_pass_or_fail, ?_⟩
  rw [status_fail_iff]
  refine exists_congr fun battery => and_congr_right fun hmin => and_congr_left fun _ => ?_
  exact ⟨fun hlow => (isLowest_perm hperm).1 (isLowest_of_argmin hmin hlow), fun hlowest => hlowest.2.1⟩

/-- Every set of entries. -/
theorem sound_iff (root : String) (entries : List (Except String SupplyEntry)) :
    Sound root entries ↔ Settled root entries := by
  by_cases hrefused : ∃ entry ∈ entries, Refused root entry
  · refine iff_of_true (fun listing hperm => ?_) (.inl hrefused)
    obtain ⟨entry, hentry, hrefuses⟩ := hrefused
    have hall : ∀ listing : List (Except String SupplyEntry), listing.Perm entries →
        (powerCheckAt root (.listed listing)).status = "fail" := fun listing hperm =>
      status_of_refused ⟨entry, hperm.mem_iff.2 hentry, hrefuses⟩
    rw [hall listing hperm, hall entries (List.Perm.refl _)]
    exact ⟨rfl, fun _ => by decide⟩
  · have hstatus := fun listing hperm => @status_listing root entries listing hperm hrefused
    unfold Settled
    rw [or_iff_right hrefused]
    constructor
    · intro hsound
      by_cases hdraws : ∃ battery, IsLowest root entries battery ∧ battery.draws = true
      · -- this order fails, so every order does
        obtain ⟨battery, hlowest, hdraw⟩ := hdraws
        obtain ⟨listing, hperm, hmin⟩ := exists_listing hlowest
        have hfails := ((hstatus listing hperm).2).2 ⟨battery, hmin, hlowest, hdraw⟩
        refine .inl ⟨⟨battery, hlowest⟩, fun other hother => ?_⟩
        obtain ⟨listing', hperm', hmin'⟩ := exists_listing hother
        have hfails' : (powerCheckAt root (.listed listing')).status = "fail" :=
          (hsound listing' hperm').1.trans ((hsound listing hperm).1.symm.trans hfails)
        obtain ⟨found, hfound, -, hdraw'⟩ := (hstatus listing' hperm').2.1 hfails'
        rw [hmin', Option.some.injEq] at hfound
        exact hfound ▸ hdraw'
      · have hnone : ∀ battery, IsLowest root entries battery → battery.draws = false :=
          fun battery hlowest => Bool.eq_false_iff.2 fun hdraw => hdraws ⟨battery, hlowest, hdraw⟩
        refine .inr ⟨hnone, fun hempty => ?_⟩
        obtain ⟨hcases, hfail⟩ := hstatus entries (List.Perm.refl _)
        rcases hcases with hpass | hfails
        · exact (hsound entries (List.Perm.refl _)).2 hempty hpass
        · obtain ⟨battery, -, hlowest, hdraw⟩ := hfail.1 hfails
          exact hdraws ⟨battery, hlowest, hdraw⟩
    · rintro (⟨⟨battery, hlowest⟩, hall⟩ | ⟨hnone, hempty⟩)
      · have hfails : ∀ listing : List (Except String SupplyEntry), listing.Perm entries →
            (powerCheckAt root (.listed listing)).status = "fail" := by
          intro listing hperm
          obtain ⟨hmem, hlow, -⟩ := (isLowest_perm hperm).2 hlowest
          cases hmin : (listing.filterMap (batteryOf root)).argmin Battery.capacity with
          | none =>
            rw [List.argmin_eq_none.1 hmin] at hmem
            cases hmem
          | some found =>
            have hfound : IsLowest root entries found := (isLowest_perm hperm).1
              (isLowest_of_argmin hmin ((List.le_of_mem_argmin hmem hmin).trans_lt hlow))
            exact (hstatus listing hperm).2.2 ⟨found, hmin, hfound, hall found hfound⟩
        intro listing hperm
        rw [hfails listing hperm, hfails entries (List.Perm.refl _)]
        exact ⟨rfl, fun _ => by decide⟩
      · have hpasses : ∀ listing : List (Except String SupplyEntry), listing.Perm entries →
            (powerCheckAt root (.listed listing)).status = "pass" := by
          intro listing hperm
          obtain ⟨hcases, hfail⟩ := hstatus listing hperm
          refine hcases.resolve_right fun hfails => ?_
          obtain ⟨battery, -, hlowest, hdraw⟩ := hfail.1 hfails
          rw [hnone battery hlowest] at hdraw
          cases hdraw
        intro listing hperm
        rw [hpasses listing hperm, hpasses entries (List.Perm.refl _)]
        exact ⟨rfl, fun hruns => absurd hruns hempty⟩

end Order

/-- A charging battery that is listed first hides one that runs empty. -/
theorem charging_battery_hides_other :
    ¬ Sound "/sys/class/power_supply"
      [.ok { name := "BAT1", kind := .ok "Battery\n", capacity := some "15\n", status := some "Charging\n" },
        .ok { name := "BAT0", kind := .ok "Battery\n", capacity := some "15\n"
              status := some "Discharging\n" }] := by
  intro hsound
  have hother := (hsound
    [.ok { name := "BAT0", kind := .ok "Battery\n", capacity := some "15\n", status := some "Discharging\n" },
      .ok { name := "BAT1", kind := .ok "Battery\n", capacity := some "15\n"
            status := some "Charging\n" }] (List.Perm.swap _ _ _)).1
  revert hother
  decide

end Kyth.Power
