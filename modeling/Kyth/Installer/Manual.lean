import Kyth.Lib.Str

/-!
# Mount points of a manual installation (`installer_manual.rs`)

The normalization shared by the manual-mount step and the partition journal.
-/

namespace Kyth.Manual

open Str

/-- `safe_path`. -/
def safePath (value label : String) : Except String String :=
  let value := trim value
  if value = "" || !startsWith value "/" || contains value ".." || contains value "//" ||
      (split value '/').contains "." ||
      !all value (fun c => isAsciiAlphanumeric c || c == '/' || c == '.' || c == '_' || c == '+' ||
        c == ':' || c == '-') then
    .error (label ++ " must be an absolute safe path")
  else .ok value

/-- `normalize_mountpoint`: `swap` for swap filesystems, otherwise a safe path without trailing
slashes; the system's own mount points only where they are allowed. -/
def normalizeMountpoint (value fs : String) (allowReserved : Bool) : Except String String := do
  let mountpoint ←
    if fs = "linux-swap" then
      if trim value ≠ "swap" then throw "swap filesystems must use the swap mount point"
      else pure "swap"
    else if trim value = "swap" then throw "the swap mount point requires a swap filesystem"
    else safePath value "manual mount point"
  let mountpoint :=
    if mountpoint.utf8ByteSize > 1 then trimEndMatches mountpoint '/' else mountpoint
  if !allowReserved ∧ fs ≠ "linux-swap" ∧
      (mountpoint = "/" ∨ mountpoint = "/boot" ∨ mountpoint = "/boot/efi") then
    throw "manual mount point is reserved"
  return mountpoint

/-- A safe path is its own trimmed form and starts with a slash. -/
theorem safePath_spec {value label path : String} (h : safePath value label = .ok path) :
    path = trim value ∧ startsWith path "/" = true ∧ ∀ c ∈ path.toList, isWhitespace c = false := by
  unfold safePath at h
  simp only at h
  split_ifs at h with hsafe
  rw [Except.ok.injEq] at h
  rw [← h]
  simp only [Bool.or_eq_true, not_or, Bool.not_eq_true, Bool.not_eq_false'] at hsafe
  obtain ⟨⟨⟨⟨⟨-, hslash⟩, -⟩, -⟩, -⟩, hall⟩ := hsafe
  refine ⟨rfl, hslash, fun c hc => ?_⟩
  have hchar := List.all_eq_true.1 hall c hc
  simp only [isAsciiAlphanumeric, isAsciiDigit, Bool.or_eq_true, Bool.and_eq_true,
    decide_eq_true_eq, beq_iff_eq] at hchar
  rcases hchar with ((((((h | h) | h) | h) | h) | h) | h) | h
  all_goals first
    | (subst h; decide)
    | (simp only [isWhitespace, Bool.or_eq_false_iff, Bool.and_eq_false_iff, decide_eq_false_iff_not,
        beq_eq_false_iff_ne]
       omega)

/-- What `normalize_mountpoint` returns where everything is allowed. -/
theorem normalizeMountpoint_eq_ok {value fs mountpoint : String}
    (h : normalizeMountpoint value fs true = .ok mountpoint) :
    fs = "linux-swap" ∧ trim value = "swap" ∧ mountpoint = "swap" ∨
      ∃ path, fs ≠ "linux-swap" ∧ safePath value "manual mount point" = .ok path ∧
        mountpoint = if path.utf8ByteSize > 1 then trimEndMatches path '/' else path := by
  have hswap : (if "swap".utf8ByteSize > 1 then trimEndMatches "swap" '/' else "swap") = "swap" := by
    decide
  unfold normalizeMountpoint at h
  by_cases hfs : fs = "linux-swap"
  · left
    by_cases hvalue : trim value = "swap"
    · simp only [hfs, if_true, hvalue, ne_eq, not_true_eq_false, if_false, pure_bind, hswap,
        Bool.not_true, Bool.false_eq_true, false_and] at h
      cases h
      exact ⟨hfs, hvalue, rfl⟩
    · simp [hfs, hvalue] at h
      cases h
  · right
    by_cases hvalue : trim value = "swap"
    · simp [hfs, hvalue] at h
      cases h
    · cases hpath : safePath value "manual mount point" with
      | error error =>
        simp [hfs, hvalue, hpath] at h
      | ok path =>
        simp only [hfs, if_false, hvalue, hpath, Bool.not_true, Bool.false_eq_true, false_and] at h
        cases h
        exact ⟨path, hfs, rfl, rfl⟩

/-- A normalized mount point has nothing left to trim, unless it is the root. -/
theorem normalizeMountpoint_trimmed {value fs mountpoint : String}
    (h : normalizeMountpoint value fs true = .ok mountpoint) :
    mountpoint = "/" ∨ trim mountpoint = mountpoint ∧ trimEndMatches mountpoint '/' = mountpoint := by
  rcases normalizeMountpoint_eq_ok h with ⟨-, -, rfl⟩ | ⟨path, -, hpath, rfl⟩
  · right
    decide
  · obtain ⟨-, hslash, hspace⟩ := safePath_spec hpath
    split_ifs with hlong
    · exact .inr ⟨trim_eq_self fun c hc => hspace c (mem_of_mem_trimEndMatches hc),
        trimEndMatches_idem path '/'⟩
    · exact .inl (eq_slash_of_short hslash hlong)

end Kyth.Manual
