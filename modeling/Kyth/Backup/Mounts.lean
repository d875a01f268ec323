import Kyth.Lib.TextLines

/-!
# Is the backup disk mounted? (`save_cloud.rs`, `backup_config.rs`)

Two guards read `/proc/mounts` for a repository on removable media. `repo_is_external` looks for a
mount point under `/run/media/` or `/mnt/` that has the repository; `repo_mount_ready` takes any
mount point that has it, so a file system that is mounted at `/run`, at `/run/media` or at `/mnt`
answers for a disk that is not there. `ready_eq_external_iff` says when the two agree.
-/

namespace Kyth.Backup

open Str TextLines

/-- `str::trim_end_matches('/')`. -/
def trimSlashes (path : List Char) : List Char := path.rdropWhile (· == '/')

/-- `decode_proc_mount_field`. The escapes are ASCII, so that a text of characters decodes as its
bytes do. -/
def decodeProcMountField : List Char → List Char
  | '\\' :: '0' :: '4' :: '0' :: field => ' ' :: decodeProcMountField field
  | '\\' :: '0' :: '1' :: '1' :: field => '\t' :: decodeProcMountField field
  | '\\' :: '0' :: '1' :: '2' :: field => '\n' :: decodeProcMountField field
  | '\\' :: '1' :: '3' :: '4' :: field => '\\' :: decodeProcMountField field
  | c :: field => c :: decodeProcMountField field
  | [] => []

/-- `/run/media/`. -/
def runMedia : List Char := "/run/media/".toList

/-- `/mnt/`. -/
def mnt : List Char := "/mnt/".toList

/-- A path under removable media or an administrator's mounts. -/
def underExternal (path : List Char) : Bool := runMedia.isPrefixOf path || mnt.isPrefixOf path

/-- A mount point, without slashes at its end, that has a repository. -/
def covers (mount repo : List Char) : Bool :=
  mount ≠ [] && (repo == mount || (mount ++ ['/']).isPrefixOf repo)

/-- `repo_mount_ready`. -/
def repoMountReady (repo mounts : List Char) : Bool :=
  if underExternal repo = false then true
  else
    (lines mounts).any fun line =>
      covers (trimSlashes (decodeProcMountField ((words line)[1]?.getD []))) (trimSlashes repo)

/-- One turn of the loop of `external_mounts_from_proc_mounts`. -/
def collectMount (seen : List (List Char)) (line : List Char) : List (List Char) :=
  match (words line)[1]? with
  | none => seen
  | some encodedTarget =>
      let target := decodeProcMountField encodedTarget
      if target = ['/'] then seen
      else if underExternal target && !seen.contains target then seen ++ [target]
      else seen

/-- `external_mounts_from_proc_mounts`. -/
def externalMountsFromProcMounts (mounts : List Char) : List (List Char) :=
  (lines mounts).foldl collectMount []

/-- `repo_is_external`. -/
def repoIsExternal (repo : List Char) (externalMounts : List (List Char)) : Bool :=
  let repo := trimSlashes repo
  if repo = [] ∨ repo = ['/'] then false
  else externalMounts.any fun mount => covers (trimSlashes mount) repo

/-! ### The mount points of a table -/

variable {repo mounts target path p : List Char}

/-- The mount points that a table lists. -/
def targets (mounts : List Char) : List (List Char) :=
  (lines mounts).filterMap fun line => (words line)[1]?.map decodeProcMountField

theorem mem_targets :
    target ∈ targets mounts ↔
      ∃ line ∈ lines mounts, ∃ field, (words line)[1]? = some field ∧
        decodeProcMountField field = target := by
  simp [targets, Option.map_eq_some_iff]

theorem repoMountReady_iff (h : underExternal repo = true) :
    repoMountReady repo mounts = true ↔
      ∃ target ∈ targets mounts, covers (trimSlashes target) (trimSlashes repo) = true := by
  rw [repoMountReady, if_neg (by simp [h]), List.any_eq_true]
  constructor
  · rintro ⟨line, hline, hcovers⟩
    cases hfield : (words line)[1]? with
    | none =>
      rw [hfield] at hcovers
      simp [covers, decodeProcMountField, trimSlashes] at hcovers
    | some field =>
      rw [hfield] at hcovers
      exact ⟨_, mem_targets.2 ⟨line, hline, field, hfield, rfl⟩, hcovers⟩
  · rintro ⟨target, htarget, hcovers⟩
    obtain ⟨line, hline, field, hfield, rfl⟩ := mem_targets.1 htarget
    exact ⟨line, hline, by rwa [hfield]⟩

/-- The external mount points are the targets under the two prefixes. -/
theorem mem_externalMounts :
    target ∈ externalMountsFromProcMounts mounts ↔
      target ∈ targets mounts ∧ underExternal target = true := by
  unfold externalMountsFromProcMounts targets
  induction lines mounts using List.reverseRecOn with
  | nil => simp
  | append_singleton table line ih =>
    rw [List.foldl_append, List.foldl_cons, List.foldl_nil, List.filterMap_append, List.mem_append]
    cases hfield : (words line)[1]? with
    | none =>
      rw [collectMount, hfield]
      simp [ih, hfield]
    | some field =>
      rw [collectMount, hfield]
      simp only [List.filterMap_cons, hfield, Option.map_some, List.filterMap_nil,
        List.mem_singleton]
      by_cases hroot : decodeProcMountField field = ['/']
      · rw [if_pos hroot, ih, hroot]
        refine ⟨fun h => ⟨.inl h.1, h.2⟩, fun h => ⟨h.1.resolve_right ?_, h.2⟩⟩
        rintro rfl
        exact absurd h.2 (by decide)
      · rw [if_neg hroot]
        split_ifs with hnew
        · rw [Bool.and_eq_true] at hnew
          rw [List.mem_append, List.mem_singleton, ih]
          constructor
          · rintro (h | rfl)
            · exact ⟨.inl h.1, h.2⟩
            · exact ⟨.inr rfl, hnew.1⟩
          · rintro ⟨h | h, hexternal⟩
            · exact .inl ⟨h, hexternal⟩
            · exact .inr h
        · rw [ih]
          refine ⟨fun h => ⟨.inl h.1, h.2⟩, ?_⟩
          rintro ⟨h | rfl, hexternal⟩
          · exact ⟨h, hexternal⟩
          · rw [hexternal, Bool.true_and, Bool.not_eq_true, Bool.not_eq_false', List.contains_iff_mem]
              at hnew
            exact ih.1 hnew

/-! ### Paths without slashes at their ends -/

theorem exists_slashes (path : List Char) :
    ∃ slashes, path = trimSlashes path ++ slashes ∧ ∀ c ∈ slashes, c = '/' := by
  refine ⟨path.rtakeWhile (· == '/'), List.rdropWhile_append_rtakeWhile.symm, fun c hc => ?_⟩
  simpa using List.mem_rtakeWhile_imp hc

theorem trimSlashes_idem (path : List Char) : trimSlashes (trimSlashes path) = trimSlashes path :=
  List.rdropWhile_idempotent _ _

/-- A mount point that the repository goes on from has it, also without the slashes at its end. -/
theorem covers_of_prefix (hne : p ≠ []) (htrim : trimSlashes p = p) (h : p ++ ['/'] <+: repo) :
    covers p (trimSlashes repo) = true := by
  obtain ⟨rest, rfl⟩ := h
  rw [covers, Bool.and_eq_true, Bool.or_eq_true, beq_iff_eq, List.isPrefixOf_iff_prefix]
  refine ⟨decide_eq_true hne, ?_⟩
  induction rest using List.reverseRecOn with
  | nil =>
    left
    rw [List.append_nil, trimSlashes, List.rdropWhile_concat_pos _ _ _ (by simp)]
    exact htrim
  | append_singleton rest c ih =>
    rw [← List.append_assoc]
    by_cases hc : c = '/'
    · rw [trimSlashes, List.rdropWhile_concat_pos _ _ _ (by simpa using hc)]
      exact ih
    · rw [trimSlashes, List.rdropWhile_concat_neg _ _ _ (by simpa using hc), List.append_assoc]
      exact .inr (List.prefix_append _ _)

/-- A mount point that has the repository, but is not under the prefix of the repository itself, is
a part of that prefix. -/
theorem prefix_of_covers {root : List Char} (hroot : root <+: repo) (htarget : ¬ root <+: target)
    (hcovers : covers (trimSlashes target) (trimSlashes repo) = true) :
    trimSlashes target ≠ [] ∧ trimSlashes target ++ ['/'] <+: root := by
  rw [covers, Bool.and_eq_true, Bool.or_eq_true, beq_iff_eq, List.isPrefixOf_iff_prefix] at hcovers
  obtain ⟨hne, hcovers⟩ := hcovers
  have hshort : ¬ root <+: trimSlashes target := fun h => htarget (h.trans (List.rdropWhile_prefix _ _))
  have hgoes : trimSlashes target ++ ['/'] <+: repo := by
    obtain heq | hprefix := hcovers
    · obtain ⟨slashes, hrepo, hslashes⟩ := exists_slashes repo
      rw [heq] at hrepo
      cases slashes with
      | nil =>
        rw [List.append_nil] at hrepo
        exact absurd (hrepo ▸ hroot) hshort
      | cons c slashes =>
        obtain rfl := hslashes c List.mem_cons_self
        rw [hrepo]
        exact ⟨slashes, by simp⟩
    · exact hprefix.trans (List.rdropWhile_prefix _ _)
  refine ⟨of_decide_eq_true hne, ?_⟩
  obtain hle | hle := List.prefix_or_prefix_of_prefix hroot hgoes
  · rw [List.prefix_concat_iff] at hle
    obtain heq | hle := hle
    · rw [heq]
    · exact absurd hle hshort
  · exact hle

/-- A target whose slashes were trimmed is the trimmed path or goes on with a slash. -/
theorem eq_or_prefix_of_trimSlashes (h : trimSlashes target = p) :
    target = p ∨ p ++ ['/'] <+: target := by
  obtain ⟨slashes, htarget, hslashes⟩ := exists_slashes target
  rw [h] at htarget
  cases slashes with
  | nil => exact .inl (by rw [htarget, List.append_nil])
  | cons c slashes =>
    obtain rfl := hslashes c List.mem_cons_self
    exact .inr ⟨slashes, by rw [htarget]; simp⟩

/-! ### When the guards agree -/

/-- A target above the disks that answers for the disk of the repository: `/run`, `/run/media` or
`/mnt` itself. -/
def Shadows (repo target : List Char) : Prop :=
  runMedia <+: repo ∧ (trimSlashes target = "/run".toList ∨ target = "/run/media".toList) ∨
    mnt <+: repo ∧ target = "/mnt".toList

theorem underExternal_iff : underExternal path = true ↔ runMedia <+: path ∨ mnt <+: path := by
  rw [underExternal, Bool.or_eq_true, List.isPrefixOf_iff_prefix, List.isPrefixOf_iff_prefix]

/-- The name of a repository on removable media is not only slashes. -/
theorem trimSlashes_external (h : underExternal repo = true) :
    ¬ (trimSlashes repo = [] ∨ trimSlashes repo = ['/']) := by
  have hmount : ∃ mount, covers mount (trimSlashes repo) = true ∧ mount ≠ ['/'] := by
    obtain hroot | hroot := underExternal_iff.1 h
    · exact ⟨"/run/media".toList, covers_of_prefix (by decide) (by decide) hroot, by decide⟩
    · exact ⟨"/mnt".toList, covers_of_prefix (by decide) (by decide) hroot, by decide⟩
  obtain ⟨mount, hcovers, hslash⟩ := hmount
  rw [covers, Bool.and_eq_true, Bool.or_eq_true, beq_iff_eq, List.isPrefixOf_iff_prefix] at hcovers
  obtain ⟨hne, hcovers⟩ := hcovers
  have hne := of_decide_eq_true hne
  rintro (hnil | hone)
  · rw [hnil] at hcovers
    obtain heq | hprefix := hcovers
    · exact hne heq.symm
    · exact absurd (List.prefix_nil.1 hprefix) (by simp)
  · rw [hone] at hcovers
    obtain heq | hprefix := hcovers
    · exact hslash heq.symm
    · have hlength := hprefix.length_le
      rw [List.length_append, List.length_singleton] at hlength
      exact hne (List.length_eq_zero_iff.1 (by omega))

theorem repoIsExternal_iff (h : underExternal repo = true) :
    repoIsExternal repo (externalMountsFromProcMounts mounts) = true ↔
      ∃ target ∈ targets mounts, underExternal target = true ∧
        covers (trimSlashes target) (trimSlashes repo) = true := by
  rw [repoIsExternal, if_neg (trimSlashes_external h), List.any_eq_true]
  constructor
  · rintro ⟨target, htarget, hcovers⟩
    obtain ⟨hlisted, hexternal⟩ := mem_externalMounts.1 htarget
    exact ⟨target, hlisted, hexternal, hcovers⟩
  · rintro ⟨target, hlisted, hexternal, hcovers⟩
    exact ⟨target, mem_externalMounts.2 ⟨hlisted, hexternal⟩, hcovers⟩

/-- What a part of a prefix that ends before a slash can be. -/
theorem runMedia_parts (h : p ++ ['/'] <+: runMedia) :
    p = [] ∨ p = "/run".toList ∨ p = "/run/media".toList := by
  have hparts : ∀ l ∈ runMedia.inits, l.getLast? = some '/' → l.dropLast = [] ∨
      l.dropLast = "/run".toList ∨ l.dropLast = "/run/media".toList := by decide
  have hp := hparts _ ((List.mem_inits _ _).2 h) (by simp)
  rwa [List.dropLast_concat] at hp

theorem mnt_parts (h : p ++ ['/'] <+: mnt) : p = [] ∨ p = "/mnt".toList := by
  have hparts : ∀ l ∈ mnt.inits, l.getLast? = some '/' → l.dropLast = [] ∨
      l.dropLast = "/mnt".toList := by decide
  have hp := hparts _ ((List.mem_inits _ _).2 h) (by simp)
  rwa [List.dropLast_concat] at hp

/-- A target that has the repository is a disk or shadows one. -/
theorem covers_iff (h : underExternal repo = true) :
    covers (trimSlashes target) (trimSlashes repo) = true ↔
      underExternal target = true ∧ covers (trimSlashes target) (trimSlashes repo) = true ∨
        Shadows repo target := by
  constructor
  · intro hcovers
    by_cases hexternal : underExternal target = true
    · exact .inl ⟨hexternal, hcovers⟩
    rw [underExternal_iff, not_or] at hexternal
    obtain hroot | hroot := underExternal_iff.1 h
    · obtain ⟨hne, hprefix⟩ := prefix_of_covers hroot hexternal.1 hcovers
      obtain hnil | hrun | hmedia := runMedia_parts hprefix
      · exact absurd hnil hne
      · exact .inr (.inl ⟨hroot, .inl hrun⟩)
      · obtain heq | hlonger := eq_or_prefix_of_trimSlashes hmedia
        · exact .inr (.inl ⟨hroot, .inr heq⟩)
        · exact absurd hlonger hexternal.1
    · obtain ⟨hne, hprefix⟩ := prefix_of_covers hroot hexternal.2 hcovers
      obtain hnil | hmnt := mnt_parts hprefix
      · exact absurd hnil hne
      · obtain heq | hlonger := eq_or_prefix_of_trimSlashes hmnt
        · exact .inr (.inr ⟨hroot, heq⟩)
        · exact absurd hlonger hexternal.2
  · rintro (⟨-, hcovers⟩ | ⟨hroot, hrun | rfl⟩ | ⟨hroot, rfl⟩)
    · exact hcovers
    · rw [hrun]
      refine covers_of_prefix (by decide) (by decide) (List.IsPrefix.trans ?_ hroot)
      exact List.isPrefixOf_iff_prefix.1 (by decide)
    · exact covers_of_prefix (by decide) (by decide) hroot
    · exact covers_of_prefix (by decide) (by decide) hroot

/-- For a repository on removable media the two guards agree exactly when nothing that is mounted
above the disks answers for its disk, or the disk is mounted. -/
theorem ready_eq_external_iff (repo mounts : List Char) (h : underExternal repo = true) :
    repoMountReady repo mounts = repoIsExternal repo (externalMountsFromProcMounts mounts) ↔
      (∀ target ∈ targets mounts, ¬ Shadows repo target) ∨
        ∃ target ∈ targets mounts, underExternal target = true ∧
          covers (trimSlashes target) (trimSlashes repo) = true := by
  rw [Bool.eq_iff_iff, repoMountReady_iff h, repoIsExternal_iff h]
  constructor
  · intro hagree
    by_cases hdisk : ∃ target ∈ targets mounts, underExternal target = true ∧
        covers (trimSlashes target) (trimSlashes repo) = true
    · exact .inr hdisk
    · refine .inl fun target htarget hshadows => hdisk (hagree.1 ⟨target, htarget, ?_⟩)
      exact (covers_iff h).2 (.inr hshadows)
  · rintro (hnone | hdisk)
    · constructor
      · rintro ⟨target, htarget, hcovers⟩
        obtain hdisk | hshadows := (covers_iff h).1 hcovers
        · exact ⟨target, htarget, hdisk⟩
        · exact absurd hshadows (hnone target htarget)
      · rintro ⟨target, htarget, -, hcovers⟩
        exact ⟨target, htarget, hcovers⟩
    · obtain ⟨target, htarget, hexternal, hcovers⟩ := hdisk
      exact iff_of_true ⟨target, htarget, hcovers⟩ ⟨target, htarget, hexternal, hcovers⟩

/-- A mounted disk. -/
theorem ready_eq_external_mounted :
    repoMountReady "/run/media/alice/BACKUP/saves".toList
        "tmpfs /run tmpfs rw 0 0\n/dev/sdb1 /run/media/alice/BACKUP exfat rw 0 0\n".toList =
      repoIsExternal "/run/media/alice/BACKUP/saves".toList (externalMountsFromProcMounts
        "tmpfs /run tmpfs rw 0 0\n/dev/sdb1 /run/media/alice/BACKUP exfat rw 0 0\n".toList) :=
  (ready_eq_external_iff _ _ (by decide)).2
    (.inr ⟨"/run/media/alice/BACKUP".toList, by decide, by decide, by decide⟩)

/-- The disk is not mounted, and the file system at `/run` answers for it. -/
theorem run_answers_for_disk :
    underExternal "/run/media/alice/BACKUP/saves".toList = true ∧
      repoMountReady "/run/media/alice/BACKUP/saves".toList
        "tmpfs /run tmpfs rw 0 0\n".toList = true ∧
      repoIsExternal "/run/media/alice/BACKUP/saves".toList
        (externalMountsFromProcMounts "tmpfs /run tmpfs rw 0 0\n".toList) = false := by
  decide

end Kyth.Backup
