import Mathlib.Data.Rat.Lemmas
import Mathlib.Tactic

/-!
# The probe cache (`system/probe.rs`)

A cache file is a document with one entry a section: the time of the entry and its data. Readers accept
an entry for as long as the section may be old; the user run of the probe copies what the system cache
holds. Times are exact rationals. The data of a section is of an arbitrary type; `none` stands for the
JSON `null`, which every reader takes for a missing value.
-/

namespace Kyth.Probe

variable {δ : Type}

/-- The table of `disk_ttl`. -/
def diskTtls : List (String × ℚ) :=
  [("bootc-status-data", 90), ("bootc-status-text", 90), ("bootc-branch", 90), ("kernel-flavor", 600),
    ("flatpak-apps", 180), ("flatpak-updates", 180), ("nvidia-detect", 300), ("controllers-detect", 120),
    ("display-detect", 30), ("hardware-probes", 30), ("hardware-snapshot", 600), ("ntfs-drives", 30),
    ("secureboot-state", 300), ("hardware-summary", 30), ("network-summary", 60), ("audit-cache", 30),
    ("firmware-cache", 300)]

/-- `disk_ttl`: how many seconds old a section may be. -/
def diskTtl (key : String) : Option ℚ := diskTtls.lookup key

/-- `deferred_system_sections`. -/
def deferredSystemSections : List String := ["flatpak-updates"]

/-- `CACHEABLE_SECTIONS`. -/
def cacheableSections : List String :=
  ["bootc-status-data", "bootc-status-text", "bootc-branch", "kernel-flavor", "flatpak-apps",
    "flatpak-updates", "nvidia-detect", "controllers-detect", "display-detect", "hardware-snapshot",
    "hardware-summary", "network-summary"]

/-- An entry of a document: `ts`, when it is a number, and `data`, when it is not `null`. -/
structure Entry (δ : Type) where
  ts : Option ℚ
  data : Option δ
  deriving DecidableEq, Repr

/-- The `sections` of a document. -/
abbrev Sections (δ : Type) := String → Option (Entry δ)

/-- The cache files by their path, as `load_cache_file` gives them: `none` for a file that is missing or
holds no document. -/
abbrev Files (δ : Type) := String → Option (Sections δ)

/-- Newly collected sections, which may be `null`. -/
abbrev Collected (δ : Type) := String → Option (Option δ)

/-- The entry of a section in a file. -/
def entryOf (file : Option (Sections δ)) (key : String) : Option (Entry δ) := file.bind fun s => s key

/-- `fresh_system_sections_in`. -/
def freshSystemSectionsIn (file : Option (Sections δ)) (now : ℚ) (key : String) : Option δ :=
  match entryOf file key with
  | none => none
  | some entry =>
    let ttl := (diskTtl key).getD 0
    let age := now - entry.ts.getD (-1)
    if age < 0 ∨ ttl < age then none else entry.data

/-! ### The paths -/

/-- `Path::join` with a relative part. -/
def join (base part : String) : String :=
  if base = "" ∨ base.toList.getLast? = some '/' then base ++ part else base ++ "/" ++ part

/-- What the environment of a process says about the cache paths: `XDG_RUNTIME_DIR`, `XDG_CACHE_HOME`,
`HOME` and the user id. -/
structure Login where
  runtimeDir : Option String
  cacheHome : Option String
  home : Option String
  uid : ℕ
  deriving DecidableEq, Repr

/-- `user_runtime_cache_path`. -/
def userRuntimeCachePath (login : Login) : String :=
  match login.runtimeDir with
  | some runtime => join (join runtime "kyth") "probe-cache.json"
  | none => join (join ("/run/user/" ++ toString login.uid) "kyth") "probe-cache.json"

/-- `user_home_cache_path`. -/
def userHomeCachePath (login : Login) : String :=
  match login.cacheHome with
  | some xdg => join (join xdg "kyth") "probe-cache.json"
  | none => join (join (join (login.home.getD "") ".cache") "kyth") "probe-cache.json"

/-- `system_cache_path`. -/
def systemCachePath : String := "/var/cache/kyth/probe-cache.json"

/-- `default_write_path`; `creatable` says whether the runtime directory is there or can be made. -/
def defaultWritePath (system : Bool) (login : Login) (creatable : Bool) : String :=
  if system || login.uid == 0 then systemCachePath
  else if creatable then userRuntimeCachePath login
  else userHomeCachePath login

/-- `cache_read_paths`. -/
def cacheReadPaths (login : Login) : List String :=
  [userRuntimeCachePath login, userHomeCachePath login, systemCachePath]

/-! ### Writing and reading -/

/-- The document that `update_sections` writes at `now`, from the file it has loaded. -/
def updatedDocument (sections : Collected δ) (now : ℚ) (file : Option (Sections δ)) : Sections δ :=
  fun key =>
    match sections key with
    | some data => some ⟨some now, data⟩
    | none => entryOf file key

/-- What a file offers for a section: its time and its data. -/
def offered (key : String) (ttl now : ℚ) (file : Option (Sections δ)) : Option (ℚ × δ) := do
  let entry ← entryOf file key
  let ts ← entry.ts
  let data ← entry.data
  if now - ts < 0 ∨ ttl < now - ts then none else some (ts, data)

/-- The loop of `read_section_in`: the offer with the latest time, the first of several. -/
def latest : Option (ℚ × δ) → List (Option (ℚ × δ)) → Option (ℚ × δ)
  | best, [] => best
  | best, none :: offers => latest best offers
  | none, some offer :: offers => latest (some offer) offers
  | some best, some offer :: offers => latest (some (if best.1 < offer.1 then offer else best)) offers

/-- `read_section_in` at `now`. -/
def readSectionIn (key : String) (now : ℚ) (files : Files δ) (paths : List String) : Option δ :=
  match diskTtl key with
  | none => none
  | some ttl =>
    (latest none (paths.map fun path => offered key ttl now (files path))).map Prod.snd

/-- `read_section`. -/
def readSection (key : String) (now : ℚ) (login : Login) (files : Files δ) : Option δ :=
  readSectionIn key now files (cacheReadPaths login)

section Specs

variable {file : Option (Sections δ)} {sections : Collected δ} {key : String} {now ttl ts : ℚ}
  {data : δ} {offers : List (Option (ℚ × δ))} {best offer : ℚ × δ}

theorem entryOf_updatedDocument (sections : Collected δ) (now : ℚ) (file : Option (Sections δ))
    (key : String) :
    entryOf (some (updatedDocument sections now file)) key =
      match sections key with
      | some data => some ⟨some now, data⟩
      | none => entryOf file key := rfl

/-- What is copied from the system cache is the data of an entry of it. -/
theorem freshSystemSectionsIn_eq_some (h : freshSystemSectionsIn file now key = some data) :
    ∃ entry, entryOf file key = some entry ∧ entry.data = some data := by
  unfold freshSystemSectionsIn at h
  cases hentry : entryOf file key with
  | none =>
    rw [hentry] at h
    cases h
  | some entry =>
    simp only [hentry] at h
    split_ifs at h
    exact ⟨entry, rfl, h⟩

/-- An offer is an entry of the file that is not too old. -/
theorem offered_eq_some (h : offered key ttl now file = some (ts, data)) :
    entryOf file key = some ⟨some ts, some data⟩ ∧ ts ≤ now ∧ now ≤ ts + ttl := by
  simp only [offered, Option.bind_eq_bind, Option.bind_eq_some_iff] at h
  obtain ⟨⟨entryTs, entryData⟩, hentry, ts', hts, data', hdata, hif⟩ := h
  split_ifs at hif with hage
  obtain ⟨rfl, rfl⟩ := Prod.mk.inj (Option.some.inj hif)
  simp only at hts hdata
  subst hts hdata
  rw [not_or, not_lt, not_lt] at hage
  exact ⟨hentry, by linarith [hage.1], by linarith [hage.2]⟩

/-- What the loop returns is what it started with or one of the offers. -/
theorem latest_eq_some {start : Option (ℚ × δ)} (h : latest start offers = some offer) :
    start = some offer ∨ some offer ∈ offers := by
  induction offers generalizing start with
  | nil =>
    rw [latest] at h
    exact .inl h
  | cons o offers ih =>
    rcases o with _ | o
    · rw [latest] at h
      exact (ih h).imp_right (List.mem_cons_of_mem _)
    · rcases start with _ | best
      · rw [latest] at h
        rcases ih h with hstart | hmem
        · exact .inr (hstart ▸ List.mem_cons_self)
        · exact .inr (List.mem_cons_of_mem _ hmem)
      · rw [latest] at h
        rcases ih h with hstart | hmem
        · split_ifs at hstart
          · exact .inr (hstart ▸ List.mem_cons_self)
          · exact .inl hstart
        · exact .inr (List.mem_cons_of_mem _ hmem)

/-- What a reader gets stands in one of the files, with a time that the section's age allows. -/
theorem readSectionIn_eq_some {files : Files δ} {paths : List String}
    (h : readSectionIn key now files paths = some data) (httl : diskTtl key = some ttl) :
    ∃ path ∈ paths, ∃ ts, entryOf (files path) key = some ⟨some ts, some data⟩ ∧ ts ≤ now ∧
      now ≤ ts + ttl := by
  simp only [readSectionIn, httl, Option.map_eq_some_iff] at h
  obtain ⟨⟨ts, data'⟩, hlatest, rfl⟩ := h
  rcases latest_eq_some hlatest with hnone | hmem
  · cases hnone
  · obtain ⟨path, hpath, hoffered⟩ := List.mem_map.1 hmem
    exact ⟨path, hpath, ts, offered_eq_some hoffered⟩

end Specs

end Kyth.Probe
