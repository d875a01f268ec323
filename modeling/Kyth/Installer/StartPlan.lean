import Kyth.Installer.Start

/-!
# The plans of a start request

The body of a start request is planned twice: by the daemon, which writes the canonical values into
it, and by the executor, which reads them back. `executor_plan` says that nothing drifts on the way
but the identity of the disk, which the executor probes itself, and that the bootc command wipes the
disk in the mode `wipe` alone.
-/

namespace Kyth.Start

open Json Serde Str Check Plan

/-! ### Planning a canonical request -/

/-- The request that the values of a plan say. -/
def canonicalInput (input : InstallerPlanInput) (plan : InstallerPlan) : InstallerPlanInput :=
  { input with
    disk := plan.disk
    installMode := spelling plan.mode
    targetPartition := plan.targetPartition.getD ""
    resizePartition := plan.resizePartition.getD ""
    resizeGib := Int64.ofNat (plan.resizeBytes / bytesPerGib)
    freeRegionStart := Int64.ofNat (plan.freeRegionStart.getD 0)
    freeRegionEnd := Int64.ofNat (plan.freeRegionEnd.getD 0) }

variable {input : InstallerPlanInput} {plan : InstallerPlan}

theorem ofString_spelling (mode : InstallMode) :
    InstallMode.ofString (toAsciiLowercase (trim (spelling mode))) = some mode := by
  cases mode <;> decide

theorem trim_ne_empty {path : String} (h : normalizeDevicePath path = some path) :
    trim path ≠ "" := by
  intro hempty
  unfold normalizeDevicePath at h
  simp [hempty] at h

theorem planTarget_canonical {mode : InstallMode} {raw : String} {target : Option String}
    (h : planTarget mode raw = .ok target) : planTarget mode (target.getD "") = .ok target := by
  have hempty : normalizeDevicePath "" = none := by decide
  cases mode with
  | wipe | resizeNtfs | freeSpace =>
    obtain rfl := Except.ok.inj h
    rfl
  | alongside =>
    rw [planTarget, requiredDevice] at h
    cases hdevice : normalizeDevicePath raw with
    | none => simp [hdevice] at h
    | some device =>
      simp only [hdevice] at h
      obtain rfl := Except.ok.inj h
      rw [planTarget, requiredDevice, Option.getD_some, (normalizeDevicePath_spec hdevice).2]
      rfl
  | manual =>
    obtain rfl := Except.ok.inj h
    rw [planTarget]
    cases hdevice : normalizeDevicePath raw with
    | none => rw [Option.getD_none, hempty]; rfl
    | some device => rw [Option.getD_some, (normalizeDevicePath_spec hdevice).2]; rfl

theorem planResize_canonical
    (h : planResize plan.mode input = .ok (plan.resizePartition, plan.resizeBytes)) :
    planResize plan.mode (canonicalInput input plan) =
      .ok (plan.resizePartition, plan.resizeBytes) := by
  cases hmode : plan.mode with
  | wipe | alongside | freeSpace | manual =>
    rw [hmode] at h
    exact h
  | resizeNtfs =>
    rw [hmode] at h
    obtain ⟨device, hpartition, hdevice, hsmall, hbytes, hlarge⟩ := planResize_eq_ok h
    have hgib : plan.resizeBytes / bytesPerGib = input.resizeGib.toInt.toNat := by
      rw [hbytes]
      exact Nat.mul_div_cancel _ (by decide)
    have hrange := input.resizeGib.toInt_lt
    have hint : (Int64.ofNat (plan.resizeBytes / bytesPerGib)).toInt = input.resizeGib.toInt := by
      rw [hgib, Int64.toInt_ofNat_of_lt (by omega), Int.toNat_of_nonneg]
      exact le_trans (by decide) hsmall
    unfold planResize
    simp only [canonicalInput, hpartition, Option.getD_some, if_neg (trim_ne_empty hdevice), hint,
      if_neg (not_lt.2 hsmall), requiredDevice, hdevice, ← hbytes, if_neg (not_le.2 hlarge)]
    rfl

/-- What a region request becomes. -/
theorem planRegion_eq_ok {start stop : Option ℕ}
    (h : planRegion .freeSpace input = .ok (start, stop)) :
    0 ≤ input.freeRegionStart.toInt ∧ input.freeRegionStart.toInt < input.freeRegionEnd.toInt ∧
      minKythosGib.toNat * bytesPerGib ≤
        input.freeRegionEnd.toInt.toNat - input.freeRegionStart.toInt.toNat ∧
      start = some input.freeRegionStart.toInt.toNat ∧
      stop = some input.freeRegionEnd.toInt.toNat := by
  unfold planRegion at h
  simp only at h
  by_cases hnone : input.freeRegionStart.toInt < 0 ∨
      input.freeRegionEnd.toInt ≤ input.freeRegionStart.toInt
  · rw [if_pos hnone] at h
    cases h
  · rw [if_neg hnone] at h
    by_cases hsmall : input.freeRegionEnd.toInt.toNat - input.freeRegionStart.toInt.toNat <
        minKythosGib.toNat * bytesPerGib
    · rw [if_pos hsmall] at h
      cases h
    · rw [if_neg hsmall] at h
      rw [not_or, not_lt, not_le] at hnone
      cases h
      exact ⟨hnone.1, hnone.2, not_lt.1 hsmall, rfl, rfl⟩

theorem planRegion_canonical
    (h : planRegion plan.mode input = .ok (plan.freeRegionStart, plan.freeRegionEnd)) :
    planRegion plan.mode (canonicalInput input plan) =
      .ok (plan.freeRegionStart, plan.freeRegionEnd) := by
  cases hmode : plan.mode with
  | wipe | resizeNtfs | alongside | manual =>
    rw [hmode] at h
    exact h
  | freeSpace =>
    rw [hmode] at h
    obtain ⟨hpositive, horder, hsmall, hstart, hend⟩ := planRegion_eq_ok h
    have hlt := input.freeRegionEnd.toInt_lt
    unfold planRegion
    simp only [canonicalInput, hstart, hend, Option.getD_some]
    rw [Int64.toInt_ofNat_of_lt (by omega), Int64.toInt_ofNat_of_lt (by omega)]
    simp only [Int.toNat_natCast]
    rw [if_neg (by omega), if_neg (not_lt.2 hsmall)]
    rfl

/-- The numbers of a plan fit into an `i64`. -/
theorem plan_lt (h : buildPlan input = .ok plan) :
    plan.resizeBytes / bytesPerGib < 2 ^ 63 ∧ plan.freeRegionStart.getD 0 < 2 ^ 63 ∧
      plan.freeRegionEnd.getD 0 < 2 ^ 63 := by
  obtain ⟨-, -, -, hresize, hregion, -⟩ := buildPlan_eq_ok_iff.1 h
  refine ⟨?_, ?_⟩
  · cases hmode : plan.mode with
    | wipe | alongside | freeSpace | manual =>
      rw [hmode] at hresize
      obtain ⟨-, hbytes⟩ := Prod.mk.inj (Except.ok.inj hresize)
      rw [← hbytes]
      decide
    | resizeNtfs =>
      rw [hmode] at hresize
      obtain ⟨-, -, -, -, -, hlarge⟩ := planResize_eq_ok hresize
      exact Nat.div_lt_of_lt_mul (hlarge.trans (by decide))
  · cases hmode : plan.mode with
    | wipe | alongside | resizeNtfs | manual =>
      rw [hmode] at hregion
      obtain ⟨hstart, hend⟩ := Prod.mk.inj (Except.ok.inj hregion)
      rw [← hstart, ← hend]
      decide
    | freeSpace =>
      rw [hmode] at hregion
      obtain ⟨hpositive, horder, -, hstart, hend⟩ := planRegion_eq_ok hregion
      have hlt := input.freeRegionEnd.toInt_lt
      rw [hstart, hend, Option.getD_some, Option.getD_some]
      omega

/-- Planning what a plan says gives the plan. -/
theorem buildPlan_canonical (h : buildPlan input = .ok plan) :
    buildPlan (canonicalInput input plan) = .ok plan := by
  obtain ⟨-, hdisk, htarget, hresize, hregion, hflatpaks, hidentity⟩ := buildPlan_eq_ok_iff.1 h
  exact buildPlan_eq_ok_iff.2 ⟨ofString_spelling plan.mode, (normalizeDevicePath_spec hdisk).2,
    planTarget_canonical htarget, planResize_canonical hresize, planRegion_canonical hregion,
    hflatpaks, hidentity⟩

/-! ### Flatpaks -/

theorem checkFlatpaks_spec {valid ids flatpaks : List String}
    (h : checkFlatpaks valid ids = .ok flatpaks) (hnodup : valid.Nodup) (hvalid : ∀ id ∈ valid, id ∈ allowedFlatpaks) :
    flatpaks.Nodup ∧ (∀ id ∈ flatpaks, id ∈ allowedFlatpaks) ∧
      flatpaks.length ≤ valid.length + ids.length := by
  induction ids generalizing valid with
  | nil =>
    cases h
    exact ⟨hnodup, hvalid, le_refl _⟩
  | cons id ids ih =>
    rw [checkFlatpaks] at h
    split_ifs at h with hallowed hseen
    · have ih := ih h hnodup hvalid
      refine ⟨ih.1, ih.2.1, ?_⟩
      rw [List.length_cons]
      omega
    · have hnew : (valid ++ [id]).Nodup := by
        rw [List.nodup_append]
        simpa [hnodup] using fun a ha (hid : a = id) => hseen (hid ▸ ha)
      have ih := ih h hnew (by simpa [or_imp, forall_and, hallowed] using hvalid)
      refine ⟨ih.1, ih.2.1, ?_⟩
      rw [List.length_append, List.length_singleton] at ih
      rw [List.length_cons]
      omega

theorem checkFlatpaks_of_nodup {valid ids : List String} (hnodup : (valid ++ ids).Nodup)
    (h : ∀ id ∈ ids, id ∈ allowedFlatpaks) : checkFlatpaks valid ids = .ok (valid ++ ids) := by
  induction ids generalizing valid with
  | nil => rw [checkFlatpaks, List.append_nil]
  | cons id ids ih =>
    have hnew : id ∉ valid := fun hmem =>
      (List.nodup_append.1 hnodup).2.2 id hmem id List.mem_cons_self rfl
    rw [checkFlatpaks, if_neg (not_not.2 (h id List.mem_cons_self)), if_neg hnew,
      ih (by simpa using hnodup) fun id' hid' => h id' (List.mem_cons_of_mem _ hid')]
    simp

/-- Validated ids are valid. -/
theorem validateFlatpaks_idem {ids flatpaks : List String}
    (h : validateFlatpaks ids = .ok flatpaks) : validateFlatpaks flatpaks = .ok flatpaks := by
  unfold validateFlatpaks at h ⊢
  split_ifs at h with hmany
  obtain ⟨hnodup, hallowed, hlength⟩ := checkFlatpaks_spec h List.nodup_nil (by simp)
  rw [List.length_nil] at hlength
  rw [if_neg (by omega)]
  exact checkFlatpaks_of_nodup hnodup hallowed

/-! ### Reading the body -/

variable {fields : List (String × Value)}

theorem field_eq_some {α : Type} {key : String} {fallback a : α} {decode : Value → Option α}
    (h : field fields key fallback decode = some a) :
    ((fields.lookup key).bind decode).getD fallback = a := by
  unfold field at h
  split at h
  · rename_i v hv
    rw [hv, Option.bind_some, h, Option.getD_some]
  · rename_i hnone
    cases h
    rw [hnone]
    rfl

/-- What an object is decoded to, field by field. -/
theorem decodeInput_eq_some_iff : decodeInput fields = some input ↔
    field fields "disk" "" Value.asStr = some input.disk ∧
    field fields "install_mode" "" Value.asStr = some input.installMode ∧
    field fields "target_partition" "" Value.asStr = some input.targetPartition ∧
    field fields "resize_partition" "" Value.asStr = some input.resizePartition ∧
    field fields "resize_gib" 0 decodeInt64 = some input.resizeGib ∧
    field fields "free_region_start" 0 decodeInt64 = some input.freeRegionStart ∧
    field fields "free_region_end" 0 decodeInt64 = some input.freeRegionEnd ∧
    field fields "target_disk_serial" none (decodeOption Value.asStr) =
      some input.targetDiskSerial ∧
    field fields "target_disk_model" none (decodeOption Value.asStr) =
      some input.targetDiskModel ∧
    field fields "target_disk_size_bytes" none (decodeOption Value.asU64) =
      some input.targetDiskSizeBytes ∧
    field fields "flatpaks" [] decodeTexts = some input.flatpaks := by
  constructor
  · intro h
    unfold decodeInput at h
    obtain ⟨disk, hdisk, h⟩ := Option.bind_eq_some_iff.1 h
    obtain ⟨mode, hmode, h⟩ := Option.bind_eq_some_iff.1 h
    obtain ⟨target, htarget, h⟩ := Option.bind_eq_some_iff.1 h
    obtain ⟨resize, hresize, h⟩ := Option.bind_eq_some_iff.1 h
    obtain ⟨gib, hgib, h⟩ := Option.bind_eq_some_iff.1 h
    obtain ⟨start, hstart, h⟩ := Option.bind_eq_some_iff.1 h
    obtain ⟨stop, hstop, h⟩ := Option.bind_eq_some_iff.1 h
    obtain ⟨serial, hserial, h⟩ := Option.bind_eq_some_iff.1 h
    obtain ⟨model, hmodel, h⟩ := Option.bind_eq_some_iff.1 h
    obtain ⟨size, hsize, h⟩ := Option.bind_eq_some_iff.1 h
    obtain ⟨flatpaks, hflatpaks, h⟩ := Option.bind_eq_some_iff.1 h
    obtain rfl := Option.some.inj h
    exact ⟨hdisk, hmode, htarget, hresize, hgib, hstart, hstop, hserial, hmodel, hsize, hflatpaks⟩
  · rintro ⟨hdisk, hmode, htarget, hresize, hgib, hstart, hstop, hserial, hmodel, hsize, hflatpaks⟩
    simp only [decodeInput, Option.bind_eq_bind, hdisk, hmode, htarget, hresize, hgib, hstart,
      hstop, hserial, hmodel, hsize, hflatpaks, Option.bind_some, Option.pure_def]

theorem filterMap_of_mapM {α β : Type} {f : α → Option β} {l : List α} {l' : List β}
    (h : l.mapM f = some l') : l.filterMap f = l' := by
  induction l generalizing l' with
  | nil =>
    cases h
    rfl
  | cons a l ih =>
    rw [List.mapM_cons, Option.bind_eq_bind, Option.bind_eq_some_iff] at h
    obtain ⟨b, hb, h⟩ := h
    rw [Option.bind_eq_bind, Option.bind_eq_some_iff] at h
    obtain ⟨l'', hl'', h⟩ := h
    cases h
    rw [List.filterMap_cons, hb, ih hl'']

/-- The executor finds the Flatpak ids that the daemon decoded. -/
theorem filterMap_flatpaks {ids : List String}
    (h : field fields "flatpaks" [] decodeTexts = some ids) :
    (((fields.lookup "flatpaks").bind Value.asArray).map (List.filterMap Value.asStr)).getD [] =
      ids := by
  unfold field at h
  split at h
  · rename_i v hv
    rw [hv, Option.bind_some]
    unfold decodeTexts at h
    split at h
    · rename_i values
      rw [Value.asArray, Option.map_some, Option.getD_some]
      exact filterMap_of_mapM h
    · cases h
  · rename_i hnone
    cases h
    rw [hnone]
    rfl

/-! ### The normalized body -/

/-- The keys that the daemon writes. -/
def planKeys : List String :=
  ["disk", "install_mode", "target_partition", "resize_partition", "resize_gib",
    "free_region_start", "free_region_end"]

theorem lookup_normalized (plan : InstallerPlan) {key : String} (h : key ∉ planKeys) :
    (Value.setFields (planFields plan) fields).lookup key = fields.lookup key :=
  Value.lookup_setFields_of_notMem (show key ∉ (planFields plan).map Prod.fst from h) fields

theorem nodup_planFields (plan : InstallerPlan) : ((planFields plan).map Prod.fst).Nodup := by
  simp only [planFields, List.map_cons, List.map_nil]
  decide

theorem decodeInt64_nat {n : ℕ} (h : n < 2 ^ 63) :
    decodeInt64 (.nat (UInt64.ofNat n)) = some (Int64.ofNat n) := by
  have hlt : n < 2 ^ 64 := by omega
  have hnat : (UInt64.ofNat n).toNat = n := UInt64.toNat_ofNat_of_lt' hlt
  rw [decodeInt64, Value.nat, decodeI64, Number.asI64, hnat, if_pos h]
  rfl

/-- The daemon reads the canonical request back from the body that it wrote. -/
theorem decodeInput_setFields (hinput : decodeInput fields = some input)
    (hplan : buildPlan input = .ok plan) :
    decodeInput (Value.setFields (planFields plan) fields) = some (canonicalInput input plan) := by
  obtain ⟨-, -, -, -, -, -, -, hserial, hmodel, hsize, hflatpaks⟩ :=
    decodeInput_eq_some_iff.1 hinput
  obtain ⟨hgib, hstart, hend⟩ := plan_lt hplan
  -- the keys that were written hold the values of the plan, the others what they held
  have hwritten {α : Type} (key : String) (v : Value) {fallback : α} {decode : Value → Option α}
      (h : (key, v) ∈ planFields plan) :
      field (Value.setFields (planFields plan) fields) key fallback decode = decode v :=
    field_of_lookup (Value.lookup_setFields (nodup_planFields plan) h fields)
  have hkept {α : Type} {key : String} {fallback : α} {decode : Value → Option α}
      (h : key ∉ planKeys) :
      field (Value.setFields (planFields plan) fields) key fallback decode =
        field fields key fallback decode := by
    rw [field, field, lookup_normalized plan h]
  rw [decodeInput_eq_some_iff]
  refine ⟨?_, ?_, ?_, ?_, ?_, ?_, ?_, ?_, ?_, ?_, ?_⟩
  · exact hwritten "disk" (.string plan.disk) (by simp [planFields])
  · exact hwritten "install_mode" (.string (spelling plan.mode)) (by simp [planFields])
  · exact hwritten "target_partition" (.string (plan.targetPartition.getD "")) (by simp [planFields])
  · exact hwritten "resize_partition" (.string (plan.resizePartition.getD "")) (by simp [planFields])
  · exact (hwritten "resize_gib" _ (by simp [planFields])).trans (decodeInt64_nat hgib)
  · exact (hwritten "free_region_start" _ (by simp [planFields])).trans (decodeInt64_nat hstart)
  · exact (hwritten "free_region_end" _ (by simp [planFields])).trans (decodeInt64_nat hend)
  · exact (hkept (by decide)).trans hserial
  · exact (hkept (by decide)).trans hmodel
  · exact (hkept (by decide)).trans hsize
  · exact (hkept (by decide)).trans hflatpaks

variable {body body' : Value} {host : Host} {request : NativeInstallRequest}

theorem planOfBody_eq_ok (h : planOfBody body = .ok plan) :
    ∃ fields input, body = .object fields ∧ decodeInput fields = some input ∧
      buildPlan input = .ok plan := by
  unfold planOfBody at h
  split at h
  · rename_i fields
    split at h
    · rename_i input hinput
      exact ⟨fields, input, rfl, hinput, h⟩
    · cases h
  · cases h

/-- What a body is normalized to. -/
theorem normalizeStartRequest_eq_ok (h : normalizeStartRequest body = .ok body') :
    ∃ fields input plan, body = .object fields ∧ decodeInput fields = some input ∧
      buildPlan input = .ok plan ∧ body' = .object (Value.setFields (planFields plan) fields) := by
  unfold normalizeStartRequest at h
  obtain ⟨plan, hplan, h⟩ := bind_eq_ok.1 h
  obtain ⟨fields, input, rfl, hinput, hplan⟩ := planOfBody_eq_ok hplan
  cases h
  exact ⟨fields, input, plan, rfl, hinput, hplan, rfl⟩

theorem planOfBody_of_decodeInput (hinput : decodeInput fields = some input)
    (hplan : buildPlan input = .ok plan) : planOfBody (.object fields) = .ok plan := by
  rw [planOfBody, hinput]
  exact hplan

theorem normalizeStartRequest_idem (h : normalizeStartRequest body = .ok body') :
    normalizeStartRequest body' = .ok body' := by
  obtain ⟨fields, input, plan, rfl, hinput, hplan, rfl⟩ := normalizeStartRequest_eq_ok h
  unfold normalizeStartRequest
  rw [planOfBody_of_decodeInput (decodeInput_setFields hinput hplan) (buildPlan_canonical hplan)]
  show Except.ok (Value.object (Value.setFields (planFields plan)
    (Value.setFields (planFields plan) fields))) = _
  rw [Value.setFields_idem (nodup_planFields plan)]

/-! ### The executor's plan -/

/-- A plan with the identity of its disk. -/
def withIdentity (plan : InstallerPlan) (identity : DiskIdentity) : InstallerPlan :=
  { plan with
    targetDiskSerial := identity.serial
    targetDiskModel := identity.model
    targetDiskSizeBytes := identity.size }

/-- The steps of `from_http` that may refuse a request. -/
theorem passes_fromHttp : Passes (fromHttp host (.object fields)) ↔
    acknowledged fields = true ∧ Passes (requestHash fields host) ∧
      Passes (requestMounts fields (requestMode fields) (stagingRoot (requestMode fields))) ∧
      Passes (requestFlatpaks fields) := by
  unfold fromHttp
  simp only
  by_cases hacknowledged : acknowledged fields = false
  · simp [hacknowledged]
  · rw [if_neg hacknowledged]
    rw [Bool.not_eq_false] at hacknowledged
    simp only [hacknowledged, passes_bind, passes_pure, and_true, exists_and_right, true_and]
    rfl

theorem fromHttp_eq_ok (h : fromHttp host (.object fields) = .ok request) :
    ∃ flatpaks, requestFlatpaks fields = .ok flatpaks ∧
      request.storage = requestStorage fields host (requestMode fields) flatpaks ∧
      request.bootc = requestBootc fields host (requestMode fields) := by
  unfold fromHttp at h
  simp only at h
  by_cases hacknowledged : acknowledged fields = false
  · rw [if_pos hacknowledged] at h
    cases h
  · rw [if_neg hacknowledged] at h
    obtain ⟨hash, -, h⟩ := bind_eq_ok.1 h
    obtain ⟨mounts, -, h⟩ := bind_eq_ok.1 h
    obtain ⟨flatpaks, hflatpaks, h⟩ := bind_eq_ok.1 h
    cases h
    exact ⟨flatpaks, hflatpaks, rfl, rfl⟩

theorem requestFlatpaks_eq_ok {ids flatpaks : List String}
    (hids : field fields "flatpaks" [] decodeTexts = some ids)
    (h : requestFlatpaks fields = .ok flatpaks) : validateFlatpaks ids = .ok flatpaks := by
  unfold requestFlatpaks at h
  simp only [filterMap_flatpaks hids] at h
  split at h
  · rename_i valid hvalid
    rw [hvalid]
    exact h
  · cases h

/-- The executor makes the plan of the daemon, with the identity that it probes. -/
theorem buildPlan_storage (hinput : decodeInput fields = some input)
    (hplan : buildPlan input = .ok plan) (h : fromHttp host (.object fields) = .ok request) :
    buildPlan request.storage = .ok (withIdentity plan (host.identity plan.disk)) := by
  obtain ⟨flatpaks, hrequested, hstorage, -⟩ := fromHttp_eq_ok h
  obtain ⟨hdisk, hmode, htarget, hresize, hgib, hstart, hend, -, -, -, hids⟩ :=
    decodeInput_eq_some_iff.1 hinput
  obtain ⟨hplanmode, hplandisk, hplantarget, hplanresize, hplanregion, hplanflatpaks, hshrink, -⟩ :=
    buildPlan_eq_ok_iff.1 hplan
  have hvalid : validateFlatpaks input.flatpaks = .ok flatpaks :=
    requestFlatpaks_eq_ok hids hrequested
  obtain rfl : plan.flatpaks = flatpaks := Except.ok.inj (hplanflatpaks.symm.trans hvalid)
  have hidentity : probeDiskIdentity host input.disk = host.identity plan.disk := by
    rw [probeDiskIdentity, hplandisk]
  have hrequest : request.storage =
      { input with
        installMode := toAsciiLowercase input.installMode
        targetDiskSerial := (host.identity plan.disk).serial
        targetDiskModel := (host.identity plan.disk).model
        targetDiskSizeBytes := (host.identity plan.disk).size
        flatpaks := plan.flatpaks } := by
    rw [hstorage]
    simp only [requestStorage, requestMode, text, number, field_eq_some hdisk, field_eq_some hmode,
      field_eq_some htarget, field_eq_some hresize, field_eq_some hgib, field_eq_some hstart,
      field_eq_some hend, hidentity]
  rw [hrequest, buildPlan_eq_ok_iff]
  refine ⟨?_, hplandisk, hplantarget, hplanresize, hplanregion,
    validateFlatpaks_idem hplanflatpaks, hshrink, rfl, rfl, rfl⟩
  rw [trim_toAsciiLowercase, toAsciiLowercase_idem]
  exact hplanmode

theorem requestMode_normalized (plan : InstallerPlan) :
    requestMode (Value.setFields (planFields plan) fields) = spelling plan.mode := by
  have hlookup : (Value.setFields (planFields plan) fields).lookup "install_mode" =
      some (.string (spelling plan.mode)) :=
    Value.lookup_setFields (nodup_planFields plan) (by simp [planFields]) fields
  rw [requestMode, text, hlookup]
  cases plan.mode <;> decide

theorem passes_requestMounts {installMode root : String} :
    Passes (requestMounts fields installMode root) ↔ (installMode = "manual" →
      trim (text fields "uuid" "") ≠ "" ∧
        (decodeMounts ((fields.lookup "mounts").getD (.array []))).isSome = true) := by
  unfold requestMounts
  by_cases hmanual : installMode = "manual"
  · rw [if_pos hmanual]
    by_cases huuid : trim (text fields "uuid" "") = ""
    · simp [hmanual, huuid]
    · rw [if_neg huuid]
      split
      · rename_i mounts hmounts
        simp [huuid, hmounts]
      · rename_i hmounts
        simp [hmanual, hmounts]
  · simp [hmanual]

/-- A body whose normalization is accepted is accepted itself. -/
theorem passes_fromHttp_of_normalized (hinput : decodeInput fields = some input)
    (hplan : buildPlan input = .ok plan)
    (h : Passes (fromHttp host (.object (Value.setFields (planFields plan) fields)))) :
    Passes (fromHttp host (.object fields)) := by
  have hsame {key : String} (hkey : key ∉ planKeys) :
      (Value.setFields (planFields plan) fields).lookup key = fields.lookup key :=
    lookup_normalized plan hkey
  rw [passes_fromHttp, passes_requestMounts, requestMode_normalized] at h
  rw [passes_fromHttp, passes_requestMounts]
  obtain ⟨hacknowledged, hhash, hmounts, hflatpaks⟩ := h
  refine ⟨?_, ?_, ?_, ?_⟩
  · rw [acknowledged, hsame (by decide), hsame (by decide)] at hacknowledged
    exact hacknowledged
  · rw [requestHash, text, text, text, hsame (by decide), hsame (by decide),
      hsame (by decide)] at hhash
    exact hhash
  · intro hmanual
    -- the executor does not trim the mode, but a mode that needs no trimming is the plan's
    have hmode : plan.mode = .manual := by
      obtain ⟨-, hmode, -⟩ := decodeInput_eq_some_iff.1 hinput
      obtain ⟨hplanmode, -⟩ := buildPlan_eq_ok_iff.1 hplan
      rw [requestMode, text, field_eq_some hmode] at hmanual
      rw [← trim_toAsciiLowercase, hmanual] at hplanmode
      exact (Option.some.inj hplanmode).symm
    rw [text, hsame (by decide), hsame (by decide)] at hmounts
    exact hmounts (by rw [hmode]; rfl)
  · rw [requestFlatpaks, hsame (by decide)] at hflatpaks
    exact hflatpaks

/-- The command wipes the disk in the mode `wipe` alone. -/
theorem wipes_bootc_iff {mode : InstallMode} {command : Bootc.BootcInstallPlan}
    (h : Bootc.buildPlan (requestBootc fields host (spelling mode)) = .ok command) :
    command.Wipes ↔ mode = .wipe := by
  have hdisk : Bootc.Subcommand.ofString (toAsciiLowercase (trim "to-disk")) = some .toDisk := by
    decide
  have hfilesystem : Bootc.Subcommand.ofString (toAsciiLowercase (trim "to-filesystem")) =
      some .toFilesystem := by
    decide
  rw [Bootc.wipes_iff h]
  simp only [requestBootc]
  cases mode with
  | wipe => simp [spelling, filesystemModes, hdisk]
  | resizeNtfs | alongside | freeSpace | manual =>
    simp [spelling, filesystemModes, hfilesystem]

/-- For every body that is accepted, the executor's plan is the daemon's plan with the identity of
the disk as the executor probes it, and the plan that the executor would make of the body itself;
normalizing again changes nothing; and the command wipes the disk in the mode `wipe` alone. -/
theorem executor_plan (hnormalized : normalizeStartRequest body = .ok body')
    (haccepted : nativeRequestFromStart host body' = .ok request) :
    ∃ plan, planOfBody body = .ok plan ∧
      buildPlan request.storage = .ok (withIdentity plan (host.identity plan.disk)) ∧
      (∃ original, fromHttp host body = .ok original ∧
        buildPlan original.storage = buildPlan request.storage) ∧
      normalizeStartRequest body' = .ok body' ∧
      ∀ command, Bootc.buildPlan request.bootc = .ok command →
        (command.Wipes ↔ plan.mode = .wipe) := by
  have hidem := normalizeStartRequest_idem hnormalized
  obtain ⟨fields, input, plan, rfl, hinput, hplan, rfl⟩ := normalizeStartRequest_eq_ok hnormalized
  obtain ⟨-, -, hhttp⟩ := bind_eq_ok.1 haccepted
  have hstorage := buildPlan_storage (decodeInput_setFields hinput hplan)
    (buildPlan_canonical hplan) hhttp
  obtain ⟨original, horiginal⟩ := passes_fromHttp_of_normalized hinput hplan ⟨request, hhttp⟩
  refine ⟨plan, planOfBody_of_decodeInput hinput hplan, hstorage,
    ⟨original, horiginal, ?_⟩, hidem, fun command hcommand => ?_⟩
  · rw [buildPlan_storage hinput hplan horiginal, hstorage]
  · obtain ⟨-, -, -, hbootc⟩ := fromHttp_eq_ok hhttp
    rw [hbootc, requestMode_normalized] at hcommand
    exact wipes_bootc_iff hcommand

/-- A machine whose disks all report the same serial number. -/
def serialHost : Host where
  identity _ := { serial := some "S1" }
  hashPassword _ := .ok "$6$salt$hash"
  sourceImage := "ghcr.io/kyth-os/kyth:latest"
  targetImage := "ghcr.io/kyth-os/kyth:latest"

/-- A request to wipe a disk, with a serial number of the client's own. -/
def wipeBody : Value :=
  .object [("disk", .string "sda"), ("install_mode", .string " WIPE "),
    ("target_disk_serial", .string "X9"), ("acknowledged_irreversible", .bool true),
    ("confirm_backup", .bool true), ("confirm_erase", .bool true), ("username", .string "kyth"),
    ("password", .string "secret")]

theorem executor_plan_wipeBody :
    ∃ body' request plan, normalizeStartRequest wipeBody = .ok body' ∧
      nativeRequestFromStart serialHost body' = .ok request ∧
      planOfBody wipeBody = .ok plan ∧
      buildPlan request.storage = .ok (withIdentity plan (serialHost.identity plan.disk)) ∧
      normalizeStartRequest body' = .ok body' := by
  have hpasses : Passes (normalizeStartRequest wipeBody >>= nativeRequestFromStart serialHost) := by
    decide
  obtain ⟨body', hnormalized, request, haccepted⟩ := passes_bind.1 hpasses
  obtain ⟨plan, hplan, hstorage, -, hidem, -⟩ := executor_plan hnormalized haccepted
  exact ⟨body', request, plan, hnormalized, haccepted, hplan, hstorage, hidem⟩

/-- The serial number of the body is in the daemon's plan and not in the executor's. -/
theorem client_serial_is_replaced :
    (planOfBody wipeBody).toOption.map (fun plan => plan.targetDiskSerial) = some (some "X9") ∧
      (normalizeStartRequest wipeBody >>= nativeRequestFromStart serialHost >>=
          fun request => buildPlan request.storage).toOption.map
        (fun plan => plan.targetDiskSerial) = some (some "S1") := by
  decide

end Kyth.Start
