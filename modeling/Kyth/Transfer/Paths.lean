import Kyth.Lib.FileTree
import Kyth.Lib.Json
import Kyth.Lib.PathText
import Kyth.Lib.Serde

/-!
# The paths of a setup archive (`setup_transfer.rs`)

An archive holds settings of a fixed list of paths below the home directory. `is_allowed_restore_path`
compares the text of a path, or its components; the system calls see its names and what stands between and
behind them. `isAllowedRestorePath_spelled` relates the two.
-/

namespace Kyth.Transfer

open FileTree Json Serde Str

/-- A file name: bytes, which need not be a text. -/
abbrev FileName := List UInt8

/-- The name that a text is. -/
def nameOf (s : String) : FileName := s.toUTF8.data.toList

/-- `CONFIG_PATHS`. -/
def configPaths : List String :=
  [".config/kdeglobals", ".config/kglobalshortcutsrc", ".config/kwinrc", ".config/kwinrulesrc",
    ".config/kcminputrc", ".config/kscreenlockerrc", ".config/klipperrc", ".config/plasmarc",
    ".config/powerdevilrc", ".config/spectaclerc", ".config/konsolerc", ".config/kwalletrc",
    ".config/kyth-cloud-sync.json", ".config/kyth-dynamic-lock.json", ".config/kyth-smb-shares.json",
    ".config/MangoHud", ".config/vkBasalt", ".local/share/kyth/profile"]

/-- `Component`. -/
inductive Component
  | rootDir
  | curDir
  | parentDir
  | normal (name : String)
  deriving DecidableEq

/-- `Component::as_os_str`. -/
def Component.asOsStr : Component → String
  | .rootDir => "/"
  | .curDir => "."
  | .parentDir => ".."
  | .normal name => name

/-- A piece between slashes as a component; empty pieces and dots are passed over. -/
def componentOf (piece : String) : Option Component :=
  if piece = "" ∨ piece = "." then none
  else if piece = ".." then some .parentDir
  else some (.normal piece)

/-- What `Path::components` yields before the pieces: a dot counts only at the beginning. -/
def leadingComponent (path : String) : List Component :=
  if startsWith path "/" then [.rootDir]
  else if (split path '/').head? = some "." then [.curDir]
  else []

/-- `Path::components`. -/
def components (path : String) : List Component :=
  leadingComponent path ++ (split path '/').filterMap componentOf

/-- The name of a launcher that an archive may hold. -/
def isLauncher (name : String) : Bool := startsWith name "kyth-" && endsWith name ".desktop"

/-- `is_allowed_restore_path`. -/
def isAllowedRestorePath (relative : String) : Bool :=
  if startsWith relative "/" || (components relative).contains .parentDir then false
  else if configPaths.contains relative then true
  else
    match (components relative).map Component.asOsStr with
    | [a, b, c, name] => a == ".local" && b == "share" && c == "applications" && isLauncher name
    | _ => false

/-! ### What the system calls see of a path -/

/-- A piece between slashes as a step. -/
def stepOf (piece : String) : Step FileName :=
  if piece = "" ∨ piece = "." then .here
  else if piece = ".." then .up
  else .down (nameOf piece)

/-- The steps of a relative path; a slash at its end is a step too. -/
def stepsOf (path : String) : List (Step FileName) := (split path '/').map stepOf

/-- The names that a relative path spells. -/
def placeOf (path : String) : Place FileName := spelled (stepsOf path)

/-- The path ends behind its last name, in a slash or a dot. -/
def EndsOpen (path : String) : Prop := (stepsOf path).getLast? = some .here

instance : DecidablePred EndsOpen := fun _ => inferInstanceAs (Decidable (_ = _))

/-- The places of the allowlist, below the home directory. -/
def Allowlisted (p : Place FileName) : Prop :=
  (∃ path ∈ configPaths, p = placeOf path) ∨
    ∃ name : String, isLauncher name = true ∧ '/' ∉ name.toList ∧
      p = [".local", "share", "applications", name].map nameOf

theorem spelled_map_stepOf (pieces : List String) :
    spelled (pieces.map stepOf) =
      (pieces.filterMap componentOf).filterMap fun
        | .normal name => some (nameOf name)
        | _ => none := by
  induction pieces with
  | nil => rfl
  | cons piece pieces ih =>
    unfold spelled at ih ⊢
    rw [List.map_cons, List.filterMap_cons, ih]
    by_cases hskip : piece = "" ∨ piece = "."
    · have hcomponent : componentOf piece = none := if_pos hskip
      have hstep : stepOf piece = .here := if_pos hskip
      rw [hstep, List.filterMap_cons_none hcomponent]
    · by_cases hup : piece = ".."
      · have hcomponent : componentOf piece = some .parentDir := by rw [componentOf, if_neg hskip, if_pos hup]
        have hstep : stepOf piece = .up := by rw [stepOf, if_neg hskip, if_pos hup]
        rw [hstep, List.filterMap_cons_some hcomponent]
        rfl
      · have hcomponent : componentOf piece = some (.normal piece) := by
          rw [componentOf, if_neg hskip, if_neg hup]
        have hstep : stepOf piece = .down (nameOf piece) := by rw [stepOf, if_neg hskip, if_neg hup]
        rw [hstep, List.filterMap_cons_some hcomponent]
        rfl

/-- A path without a component for the parent directory has no step to it. -/
theorem up_notMem_stepsOf {path : String} (h : Component.parentDir ∉ components path) :
    Step.up ∉ stepsOf path := by
  intro hup
  obtain ⟨piece, hpiece, hstep⟩ := List.mem_map.1 hup
  refine h (List.mem_append_right _ (List.mem_filterMap.2 ⟨piece, hpiece, ?_⟩))
  unfold stepOf at hstep
  unfold componentOf
  split_ifs at hstep ⊢ with hskip hpar
  rfl

/-- The pieces of a path without a component for the parent directory are names. -/
theorem normal_of_mem_pieces {path : String} {component : Component}
    (h : Component.parentDir ∉ components path)
    (hmem : component ∈ (split path '/').filterMap componentOf) : ∃ name, component = .normal name := by
  obtain ⟨piece, -, hpiece⟩ := List.mem_filterMap.1 hmem
  unfold componentOf at hpiece
  split_ifs at hpiece
  · obtain rfl := Option.some.inj hpiece
    exact absurd (List.mem_append_right _ hmem) h
  · exact ⟨piece, (Option.some.inj hpiece).symm⟩

theorem slash_notMem_of_mem_pieces {path name : String} {component : Component}
    (h : Component.parentDir ∉ components path)
    (hmem : component ∈ (split path '/').filterMap componentOf) (hname : component.asOsStr = name) :
    '/' ∉ name.toList := by
  obtain ⟨name', rfl⟩ := normal_of_mem_pieces h hmem
  obtain ⟨piece, hpiece, hcomponent⟩ := List.mem_filterMap.1 hmem
  unfold componentOf at hcomponent
  split_ifs at hcomponent
  · cases hcomponent
  · obtain rfl : piece = name' := Component.normal.inj (Option.some.inj hcomponent)
    obtain rfl : piece = name := hname
    exact PathText.not_mem_of_mem_split hpiece

theorem placeOf_eq {path : String} (h : Component.parentDir ∉ components path) :
    placeOf path = (((split path '/').filterMap componentOf).map Component.asOsStr).map nameOf := by
  rw [placeOf, stepsOf, spelled_map_stepOf, List.map_map, ← List.filterMap_eq_map]
  refine List.filterMap_congr fun component hmem => ?_
  obtain ⟨name, rfl⟩ := normal_of_mem_pieces h hmem
  rfl

/-- An allowed path stays below the home directory and spells a place of the allowlist. -/
theorem isAllowedRestorePath_spelled {path : String} (h : isAllowedRestorePath path = true) :
    Step.up ∉ stepsOf path ∧ Allowlisted (placeOf path) := by
  unfold isAllowedRestorePath at h
  split_ifs at h with hrefused hconfig
  · rw [Bool.or_eq_true, not_or, Bool.not_eq_true, List.contains_iff_mem] at hrefused
    exact ⟨up_notMem_stepsOf hrefused.2, .inl ⟨path, List.contains_iff_mem.1 hconfig, rfl⟩⟩
  · rw [Bool.or_eq_true, not_or, Bool.not_eq_true, List.contains_iff_mem] at hrefused
    refine ⟨up_notMem_stepsOf hrefused.2, .inr ?_⟩
    split at h
    next a b c name hcomponents =>
      simp only [Bool.and_eq_true, beq_iff_eq] at h
      obtain ⟨⟨⟨rfl, rfl⟩, rfl⟩, hlauncher⟩ := h
      -- a dot at the beginning would be the first component
      have hleading : leadingComponent path = [] := by
        unfold leadingComponent
        rw [hrefused.1, if_neg Bool.false_ne_true]
        refine if_neg fun hdot => ?_
        rw [components, leadingComponent, hrefused.1, if_neg Bool.false_ne_true, if_pos hdot] at hcomponents
        exact absurd (List.cons.inj hcomponents).1 (by decide)
      rw [components, hleading, List.nil_append] at hcomponents
      refine ⟨name, hlauncher, ?_, by rw [placeOf_eq hrefused.2, hcomponents]⟩
      obtain ⟨component, hmem, hname⟩ := List.mem_map.1 (hcomponents ▸ show name ∈ [_, _, _, name] by simp)
      exact slash_notMem_of_mem_pieces hrefused.2 hmem hname
    · cases h

/-! ### The paths of an export -/

/-- The path of a launcher. -/
def launcherRel (name : String) : String := ".local/share/applications/" ++ name

/-- A path as an export spells it. -/
def Exported (rel : String) : Prop :=
  rel ∈ configPaths ∨ ∃ name, isLauncher name = true ∧ '/' ∉ name.toList ∧ rel = launcherRel name

section Launchers

variable {name : String}

theorem split_launcherRel (hname : '/' ∉ name.toList) :
    split (launcherRel name) '/' = [".local", "share", "applications", name] := by
  have hrel : launcherRel name = "/".intercalate [".local", "share", "applications", name] := by
    have hpieces : ".local/share/applications/".toList = ".local".toList ++ "/".toList ++ "share".toList ++
        "/".toList ++ "applications".toList ++ "/".toList := by decide
    refine String.toList_injective ?_
    unfold launcherRel
    rw [String.toList_append, String.toList_intercalate]
    simp only [List.map_cons, List.map_nil, List.intercalate]
    rw [hpieces]
    simp
  rw [hrel]
  refine PathText.split_intercalate (fun part hpart => ?_) (by simp)
  simp only [List.mem_cons, List.not_mem_nil, or_false] at hpart
  obtain rfl | rfl | rfl | rfl := hpart
  · decide
  · decide
  · decide
  · exact hname

theorem ne_of_isLauncher (h : isLauncher name = true) : ¬ (name = "" ∨ name = ".") ∧ name ≠ ".." := by
  rw [isLauncher, Bool.and_eq_true] at h
  have hne (s : String) (hs : startsWith s "kyth-" = false) : name ≠ s := by
    rintro rfl
    rw [h.1] at hs
    cases hs
  refine ⟨?_, hne ".." (by decide)⟩
  rintro (heq | heq)
  · exact hne "" (by decide) heq
  · exact hne "." (by decide) heq

theorem stepsOf_launcherRel (h : isLauncher name = true) (hname : '/' ∉ name.toList) :
    stepsOf (launcherRel name) = ([".local", "share", "applications", name].map nameOf).map Step.down := by
  rw [stepsOf, split_launcherRel hname, List.map_map]
  have hfirst : ∀ piece ∈ [".local", "share", "applications"], stepOf piece = .down (nameOf piece) := by
    decide
  refine List.map_congr_left fun piece hpiece => ?_
  rw [show [".local", "share", "applications", name] = [".local", "share", "applications"] ++ [name] from rfl,
    List.mem_append, List.mem_singleton] at hpiece
  obtain hpiece | rfl := hpiece
  · exact hfirst piece hpiece
  · rw [stepOf, if_neg (ne_of_isLauncher h).1, if_neg (ne_of_isLauncher h).2]
    rfl

theorem placeOf_launcherRel (h : isLauncher name = true) (hname : '/' ∉ name.toList) :
    placeOf (launcherRel name) = [".local", "share", "applications", name].map nameOf := by
  rw [placeOf, stepsOf_launcherRel h hname, spelled_map_down]

theorem isAllowedRestorePath_launcherRel (h : isLauncher name = true) (hname : '/' ∉ name.toList) :
    isAllowedRestorePath (launcherRel name) = true := by
  have hslash : startsWith (launcherRel name) "/" = false := by
    have hdot : ".local/share/applications/".toList = '.' :: "local/share/applications/".toList := by
      decide
    unfold startsWith launcherRel
    rw [String.toList_append, hdot, List.cons_append, show "/".toList = ['/'] from rfl,
      List.isPrefixOf_cons_cons]
    rfl
  have hname' : componentOf name = some (.normal name) := by
    rw [componentOf, if_neg (ne_of_isLauncher h).1, if_neg (ne_of_isLauncher h).2]
  have hcomponents : components (launcherRel name) =
      [.normal ".local", .normal "share", .normal "applications", .normal name] := by
    have hleading : leadingComponent (launcherRel name) = [] := by
      rw [leadingComponent, hslash, split_launcherRel hname]
      rfl
    have hfirst : [".local", "share", "applications"].filterMap componentOf =
        [.normal ".local", .normal "share", .normal "applications"] := by decide
    rw [components, hleading, split_launcherRel hname, List.nil_append,
      show [".local", "share", "applications", name] = [".local", "share", "applications"] ++ [name] from rfl,
      List.filterMap_append, hfirst, List.filterMap_cons_some hname']
    rfl
  unfold isAllowedRestorePath
  rw [hslash, hcomponents]
  simp [h, Component.asOsStr]

end Launchers

theorem nameOf_injective : Function.Injective nameOf := by
  intro a b h
  rw [nameOf, nameOf, Array.toList_inj] at h
  exact String.toByteArray_inj.1 (ByteArray.ext h)

/-- The settings paths are allowed, and spelled by their names. -/
theorem configPaths_spelled : ∀ path ∈ configPaths,
    isAllowedRestorePath path = true ∧ stepsOf path = (placeOf path).map Step.down := by
  decide

/-- No settings path lies below another one, or on the way to a launcher, or below one. -/
theorem configPaths_apart : ∀ path ∈ configPaths,
    (∀ path' ∈ configPaths, placeOf path <+: placeOf path' → path = path') ∧
      ¬ placeOf path <+: [".local", "share", "applications"].map nameOf ∧
      ¬ [".local", "share", "applications"].map nameOf <+: placeOf path := by
  decide

namespace Exported

variable {rel rel' : String}

theorem allowed (h : Exported rel) : isAllowedRestorePath rel = true := by
  obtain hconfig | ⟨name, hlauncher, hname, rfl⟩ := h
  · exact (configPaths_spelled rel hconfig).1
  · exact isAllowedRestorePath_launcherRel hlauncher hname

theorem steps (h : Exported rel) : stepsOf rel = (placeOf rel).map Step.down := by
  obtain hconfig | ⟨name, hlauncher, hname, rfl⟩ := h
  · exact (configPaths_spelled rel hconfig).2
  · rw [placeOf_launcherRel hlauncher hname, stepsOf_launcherRel hlauncher hname]

theorem allowlisted (h : Exported rel) : Allowlisted (placeOf rel) :=
  (isAllowedRestorePath_spelled h.allowed).2

/-- No exported path lies below another one. -/
theorem eq_of_prefix (h : Exported rel) (h' : Exported rel') (hpre : placeOf rel <+: placeOf rel') :
    rel = rel' := by
  have hlast (name : String) : [".local", "share", "applications", name].map nameOf =
      [".local", "share", "applications"].map nameOf ++ [nameOf name] := rfl
  obtain hconfig | ⟨name, hlauncher, hname, rfl⟩ := h
  · obtain ⟨hconfigs, hbefore, hbehind⟩ := configPaths_apart rel hconfig
    obtain hconfig' | ⟨name', hlauncher', hname', rfl⟩ := h'
    · exact hconfigs rel' hconfig' hpre
    · rw [placeOf_launcherRel hlauncher' hname', hlast, List.prefix_concat_iff] at hpre
      obtain heq | hpre := hpre
      · rw [heq] at hbehind
        exact absurd (List.prefix_append _ _) hbehind
      · exact absurd hpre hbefore
  · rw [placeOf_launcherRel hlauncher hname] at hpre
    obtain hconfig' | ⟨name', hlauncher', hname', rfl⟩ := h'
    · rw [hlast] at hpre
      exact absurd ((List.prefix_append _ _).trans hpre) (configPaths_apart rel' hconfig').2.2
    · rw [placeOf_launcherRel hlauncher' hname', hlast, hlast, List.prefix_append_right_inj] at hpre
      rw [nameOf_injective (List.cons_prefix_cons.1 hpre).1]

end Exported

/-- Every place of the allowlist has a path that an export uses. -/
theorem Allowlisted.exists_exported {p : Place FileName} (h : Allowlisted p) :
    ∃ rel, Exported rel ∧ placeOf rel = p := by
  obtain ⟨path, hpath, rfl⟩ | ⟨name, hlauncher, hname, rfl⟩ := h
  · exact ⟨path, .inl hpath, rfl⟩
  · exact ⟨launcherRel name, .inr ⟨name, hlauncher, hname, rfl⟩, placeOf_launcherRel hlauncher hname⟩

/-! ### The manifest -/

/-- `SetupFlatpak`. -/
structure SetupFlatpak where
  id : String := ""
  origin : String := ""
  deriving DecidableEq

/-- `SetupManifest`. -/
structure SetupManifest where
  format : String
  version : UInt64
  created : String
  hostname : String
  flatpaks : List SetupFlatpak
  defaultApps : AList fun _ : String => String
  cloudRemotes : List Value
  copiedPaths : List String
  secretsExcluded : List String

/-- Deserialize a vector. -/
def decodeList {α : Type} (decode : Value → Option α) : Value → Option (List α)
  | .array values => values.mapM decode
  | _ => none

/-- `from_value::<SetupFlatpak>`. -/
def decodeFlatpak : Value → Option SetupFlatpak
  | .object fields => do
      let id ← field fields "id" "" Value.asStr
      let origin ← field fields "origin" "" Value.asStr
      return { id, origin }
  | _ => none

/-- `from_value::<SetupManifest>`. -/
def decodeManifest (fields : List (String × Value)) : Option SetupManifest := do
  let format ← (fields.lookup "format").bind Value.asStr
  let version ← (fields.lookup "version").bind Value.asU64
  let created ← field fields "created" "" Value.asStr
  let hostname ← field fields "hostname" "" Value.asStr
  let flatpaks ← field fields "flatpaks" [] (decodeList decodeFlatpak)
  let defaultApps ← field fields "default_apps" ∅ (decodeMap Value.asStr)
  let cloudRemotes ← field fields "cloud_remotes" [] (decodeList some)
  let copiedPaths ← (fields.lookup "copied_paths").bind (decodeList Value.asStr)
  let secretsExcluded ← field fields "secrets_excluded" [] (decodeList Value.asStr)
  return { format, version, created, hostname, flatpaks, defaultApps, cloudRemotes, copiedPaths,
           secretsExcluded }

/-- `validate_manifest`; `display` writes a value into a message. -/
def validateManifest (display : Value → String) (value : Value) : Except String SetupManifest :=
  match value with
  | .object fields =>
      if (fields.lookup "format").bind Value.asStr ≠ some "KythOS setup transfer" then
        .error "This is not a KythOS setup archive."
      else if (fields.lookup "version").bind Value.asU64 ≠ some 1 then
        .error ("Unsupported setup archive version: " ++ display ((fields.lookup "version").getD .null))
      else
        match (fields.lookup "copied_paths").bind Value.asArray with
        | none => .error "The setup archive contains an unsupported settings path."
        | some copied =>
            if !copied.all fun path => path.asStr.any isAllowedRestorePath then
              .error "The setup archive contains an unsupported settings path."
            else if ¬ (copied.filterMap Value.asStr).Nodup then
              .error "The setup archive manifest contains duplicate settings paths."
            else
              match decodeManifest fields with
              | some manifest => .ok manifest
              | none => .error "The setup archive manifest is malformed."
  | _ => .error "The setup archive manifest is invalid."

end Kyth.Transfer
