import Kyth.Upgrade.Status

/-!
# The entry of a manifest index (`registry.rs`)

An index lists one manifest for each platform. `amd64_manifest_entry` goes through the entries and gives
up at the first one that lacks a field it looks at, so an entry for another purpose, such as an
attestation without a platform, hides the entries behind it: `finds_wanted_iff`.
-/

namespace Kyth.Upgrade

open Json Str

variable {entry : Value} {entries before after : List Value} {raw : Manifest}

/-- The entry is for `linux` on `amd64`. -/
def isWanted (entry : Value) : Bool :=
  (entry.get "platform").any fun platform =>
    (platform.get "architecture").bind Value.asStr == some "amd64" &&
      (platform.get "os").bind Value.asStr == some "linux"

/-- The entry has the fields that the search looks at: a platform with an architecture, and with a
system if the architecture is `amd64`. -/
def IsComplete (entry : Value) : Prop :=
  ∃ platform architecture, entry.get "platform" = some platform ∧
    platform.get "architecture" = some architecture ∧
    (architecture.asStr = some "amd64" → (platform.get "os").isSome)

theorem isComplete_of_isWanted (h : isWanted entry = true) : IsComplete entry := by
  obtain ⟨platform, hplatform, h⟩ := (Option.any_eq_true _ _).1 h
  rw [Bool.and_eq_true, beq_iff_eq, beq_iff_eq] at h
  obtain ⟨architecture, harchitecture, -⟩ := Option.bind_eq_some_iff.1 h.1
  obtain ⟨os, hos, -⟩ := Option.bind_eq_some_iff.1 h.2
  exact ⟨platform, architecture, hplatform, harchitecture, fun _ => by rw [hos]; rfl⟩

theorem go_of_isWanted (h : isWanted entry = true) (entries : List Value) :
    amd64ManifestEntry.go (entry :: entries) = some entry := by
  obtain ⟨platform, hplatform, h⟩ := (Option.any_eq_true _ _).1 h
  rw [Bool.and_eq_true, beq_iff_eq, beq_iff_eq] at h
  obtain ⟨architecture, harchitecture, hamd64⟩ := Option.bind_eq_some_iff.1 h.1
  obtain ⟨os, hos, hlinux⟩ := Option.bind_eq_some_iff.1 h.2
  simp [amd64ManifestEntry.go, hplatform, harchitecture, hamd64, hos, hlinux]

/-- A complete entry that is not wanted is skipped. -/
theorem go_of_isComplete (hcomplete : IsComplete entry) (h : isWanted entry = false)
    (entries : List Value) :
    amd64ManifestEntry.go (entry :: entries) = amd64ManifestEntry.go entries := by
  obtain ⟨platform, architecture, hplatform, harchitecture, hos⟩ := hcomplete
  rw [isWanted, hplatform, Option.any_some, harchitecture, Option.bind_some] at h
  by_cases hamd64 : architecture.asStr = some "amd64"
  · obtain ⟨os, hos⟩ := Option.isSome_iff_exists.1 (hos hamd64)
    have hlinux : os.asStr ≠ some "linux" := by
      simpa [hamd64, hos] using h
    simp [amd64ManifestEntry.go, hplatform, harchitecture, hamd64, hos, hlinux]
  · simp [amd64ManifestEntry.go, hplatform, harchitecture, hamd64]

/-- An entry that is not complete ends the search. -/
theorem go_of_not_isComplete (h : ¬ IsComplete entry) (entries : List Value) :
    amd64ManifestEntry.go (entry :: entries) = none := by
  cases hplatform : entry.get "platform" with
  | none => simp [amd64ManifestEntry.go, hplatform]
  | some platform =>
    cases harchitecture : platform.get "architecture" with
    | none => simp [amd64ManifestEntry.go, hplatform, harchitecture]
    | some architecture =>
      by_cases hamd64 : architecture.asStr = some "amd64"
      · have hos : platform.get "os" = none := by
          by_contra hos
          exact h ⟨platform, architecture, hplatform, harchitecture, fun _ =>
            Option.isSome_iff_ne_none.2 hos⟩
        simp [amd64ManifestEntry.go, hplatform, harchitecture, hamd64, hos]
      · exact absurd ⟨platform, architecture, hplatform, harchitecture, fun h => absurd h hamd64⟩ h

/-- The entries in front of the first wanted one are complete. -/
def ReachesWanted (entries : List Value) : Prop :=
  ∀ before entry after, entries = before ++ entry :: after → isWanted entry = true →
    (∀ e ∈ before, isWanted e = false) → ∀ e ∈ before, IsComplete e

/-- The search finds the first wanted entry exactly if it reaches it. -/
theorem go_eq_find_iff (entries : List Value) :
    amd64ManifestEntry.go entries = entries.find? isWanted ↔ ReachesWanted entries := by
  induction entries with
  | nil =>
    refine ⟨fun _ before entry after h => ?_, fun _ => rfl⟩
    exact absurd h (by simp)
  | cons first entries ih =>
    cases hwanted : isWanted first with
    | true =>
      rw [go_of_isWanted hwanted, List.find?_cons_of_pos hwanted]
      refine ⟨fun _ before entry after h _ hbefore => ?_, fun _ => rfl⟩
      cases before with
      | nil => exact List.forall_mem_nil _
      | cons e before =>
        cases h
        rw [hbefore first List.mem_cons_self] at hwanted
        cases hwanted
    | false =>
      rw [List.find?_cons_of_neg (by simp [hwanted])]
      by_cases hcomplete : IsComplete first
      · rw [go_of_isComplete hcomplete hwanted, ih]
        constructor
        · intro h before entry after heq hentry hbefore
          cases before with
          | nil => exact List.forall_mem_nil _
          | cons e before =>
            cases heq
            rw [List.forall_mem_cons] at hbefore
            exact List.forall_mem_cons.2 ⟨hcomplete, h before entry after rfl hentry hbefore.2⟩
        · intro h before entry after heq hentry hbefore
          have hcons := h (first :: before) entry after (by rw [heq]; rfl) hentry
            (List.forall_mem_cons.2 ⟨hwanted, hbefore⟩)
          exact (List.forall_mem_cons.1 hcons).2
      · rw [go_of_not_isComplete hcomplete, eq_comm, List.find?_eq_none]
        constructor
        · intro hnone before entry after heq hentry _
          have hmem : entry ∈ first :: entries := heq ▸ by simp
          rcases List.mem_cons.1 hmem with rfl | hmem
          · rw [hwanted] at hentry
            cases hentry
          · exact absurd hentry (hnone entry hmem)
        · intro h entry hmem hentry
          obtain ⟨before, found, after, heq, hfound, hbefore⟩ :
              ∃ before found after, entries = before ++ found :: after ∧ isWanted found = true ∧
                ∀ e ∈ before, isWanted e = false := by
            obtain ⟨found, hfound⟩ := Option.isSome_iff_exists.1
              (List.find?_isSome.2 ⟨entry, hmem, hentry⟩)
            obtain ⟨hwantedFound, before, after, heq, hbefore⟩ := List.find?_eq_some_iff_append.1 hfound
            exact ⟨before, found, after, heq, hwantedFound, fun e he => by simpa using hbefore e he⟩
          have hcons := h (first :: before) found after (by rw [heq]; rfl) hfound
            (List.forall_mem_cons.2 ⟨hwanted, hbefore⟩)
          exact hcomplete (List.forall_mem_cons.1 hcons).1

/-- Both functions find the first wanted entry: the one returns it, the other its digest. -/
def FindsWanted (raw : Manifest) (entries : List Value) : Prop :=
  amd64ManifestEntry raw.document = entries.find? isWanted ∧
    remoteDigest raw =
      ((entries.find? isWanted).bind (Value.get · "digest")).bind digestText

/-- The document says that it is the manifest of one image. -/
def isSingleImage (document : Value) : Bool :=
  ((document.get "mediaType").bind Value.asStr).any (endsWith · "manifest.v1+json")

/-- Both functions find the first entry for `linux` on `amd64` exactly if the search reaches it. -/
theorem finds_wanted_iff (raw : Manifest) (entries : List Value)
    (hindex : raw.document.get "manifests" = some (.array entries))
    (hsingle : isSingleImage raw.document = false) :
    FindsWanted raw entries ↔ ReachesWanted entries := by
  have hentry : amd64ManifestEntry raw.document = amd64ManifestEntry.go entries := by
    rw [amd64ManifestEntry, hindex]
    rfl
  have hdigest : remoteDigest raw =
      ((amd64ManifestEntry.go entries).bind (Value.get · "digest")).bind digestText := by
    unfold isSingleImage at hsingle
    simp only [remoteDigest]
    rw [if_neg (by simp [hsingle]), if_pos (by rw [hindex]; rfl), hentry]
  rw [FindsWanted, hentry, hdigest, ← go_eq_find_iff]
  exact ⟨And.left, fun h => ⟨h, by rw [h]⟩⟩

/-- An image and its attestation, for which no platform is given. -/
def indexOf (entries : List Value) : Manifest := ⟨.object [("manifests", .array entries)], "00"⟩

def amd64Entry : Value :=
  .object [("digest", .string "sha256:11"),
    ("platform", .object [("architecture", .string "amd64"), ("os", .string "linux")])]

def attestation : Value := .object [("digest", .string "sha256:22")]

theorem finds_wanted_amd64 : FindsWanted (indexOf [amd64Entry, attestation]) [amd64Entry, attestation] := by
  refine (finds_wanted_iff _ _ rfl rfl).2 fun before entry after h _ hbefore => ?_
  cases before with
  | nil => exact List.forall_mem_nil _
  | cons e before =>
    rw [List.cons_append, List.cons.injEq] at h
    have hfirst := hbefore e List.mem_cons_self
    rw [← h.1] at hfirst
    exact absurd hfirst (by decide)

/-- The entry behind an attestation is not found. -/
theorem attestation_hides_entry :
    (indexOf [attestation, amd64Entry]).document.get "manifests" =
        some (.array [attestation, amd64Entry]) ∧
      isSingleImage (indexOf [attestation, amd64Entry]).document = false ∧
      [attestation, amd64Entry].find? isWanted = some amd64Entry ∧
      amd64ManifestEntry (indexOf [attestation, amd64Entry]).document = none ∧
      remoteDigest (indexOf [attestation, amd64Entry]) = none := by
  refine ⟨rfl, by decide, ?_, rfl, ?_⟩
  · rw [List.find?_cons_of_neg (by decide), List.find?_cons_of_pos (by decide)]
  · simp only [remoteDigest]
    rw [if_neg (by decide), if_pos (by decide)]
    rfl

end Kyth.Upgrade
