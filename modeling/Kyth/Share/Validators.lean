import Kyth.Share.Request
import Kyth.Lib.PathText

/-!
# The daemon and the share helper check the same request

The daemon measures a text in characters, the helper in bytes, and the helper alone refuses a backslash
or a quote in a share path. `helper_accepts_iff` says that within the limits in bytes this is the only
difference, and that the helper reads the fields that the daemon wrote.
-/

namespace Kyth.Share

open Str PathText Check
open Json (Value)
open Privileged (Fields shareText keptParts mountPathMatches trimStartMatches)

/-! ### Texts -/

variable {payload : Fields} {field value : String} {allowEmpty : Bool} {maximum : ℕ}

/-- A text that the daemon accepts. -/
structure Accepted (allowEmpty : Bool) (maximum : ℕ) (value : String) : Prop where
  nonempty : allowEmpty = false → value ≠ ""
  length : value.toList.length ≤ maximum
  control : ∀ c ∈ value.toList, isControl c = false

theorem accepted_of_shareText (h : shareText payload field allowEmpty maximum = .ok value) :
    Accepted allowEmpty maximum value := by
  unfold shareText at h
  split at h
  · exact absurd h nofun
  · next text _ =>
    split_ifs at h with hcheck
    obtain rfl : text = value := Except.ok.inj h
    simp only [Bool.or_eq_true, Bool.and_eq_true, Bool.not_eq_true', beq_iff_eq,
      decide_eq_true_eq, List.any_eq_true, not_or, not_exists, not_and, not_lt] at hcheck
    refine ⟨hcheck.1.1, hcheck.1.2, fun c hc => ?_⟩
    exact Bool.eq_false_iff.mpr (hcheck.2 c hc).1

theorem plain_string (h : Accepted allowEmpty maximum value) {limit : ℕ}
    (hsize : value.utf8ByteSize ≤ limit) :
    plain (some (.string value)) field allowEmpty limit = .ok value := by
  have hempty : (!allowEmpty && value == "") = false := by
    cases allowEmpty with
    | true => rfl
    | false => simpa using h.nonempty rfl
  have hcontrol : value.toList.any isControl = false := by
    simpa [List.any_eq_false] using h.control
  show (if _ then _ else _) = _
  rw [if_neg]
  rw [hempty, hcontrol, Bool.or_false, Bool.false_or, decide_eq_true_eq]
  omega

/-! ### Characters of names, hosts and mount points -/

theorem ascii_of_alphanumeric {c : Char} (h : isAsciiAlphanumeric c = true) : c.toNat < 128 := by
  simp only [isAsciiAlphanumeric, isAsciiDigit, Bool.or_eq_true, Bool.and_eq_true,
    decide_eq_true_eq] at h
  omega

/-- The characters of a mount point. -/
def isMountChar (c : Char) : Bool :=
  isAsciiAlphanumeric c || c == '.' || c == '_' || c == '/' || c == ' ' || c == '-'

theorem isControl_of_isMountChar {c : Char} (h : isMountChar c = true) : isControl c = false := by
  simp only [isMountChar, isAsciiAlphanumeric, isAsciiDigit, Bool.or_eq_true, Bool.and_eq_true,
    decide_eq_true_eq, beq_iff_eq] at h
  rcases h with ((((h | rfl) | rfl) | rfl) | rfl) | rfl
  · simp only [isControl, Bool.or_eq_false_iff, Bool.and_eq_false_iff, decide_eq_false_iff_not]
    omega
  all_goals decide

/-! ### The mount point -/

theorem keptParts_no_slash {part : String} (h : part ∈ keptParts value) : '/' ∉ part.toList :=
  not_mem_of_mem_split (List.mem_filter.mp h).1

theorem mem_keptParts_ne {part : String} (h : part ∈ keptParts value) : part ≠ "" ∧ part ≠ "." := by
  simpa using (List.mem_filter.mp h).2

/-- A path below an approved prefix has at least two parts. -/
theorem two_le_length_of_prefix {parts : List String} {approved : String}
    (hparts : ∀ part ∈ parts, '/' ∉ part.toList) (happroved : approved ∈ safeMountPrefixes)
    (h : startsWith ("/" ++ "/".intercalate parts) approved = true) : 2 ≤ parts.length := by
  obtain ⟨rest, hrest, hslash⟩ : ∃ rest, approved.toList = '/' :: rest ∧ '/' ∈ rest := by
    simp only [safeMountPrefixes, List.mem_cons, List.not_mem_nil, or_false] at happroved
    rcases happroved with rfl | rfl | rfl
    · exact ⟨"mnt/".toList, rfl, by decide⟩
    · exact ⟨"media/".toList, rfl, by decide⟩
    · exact ⟨"run/media/".toList, rfl, by decide⟩
  rw [startsWith, List.isPrefixOf_iff_prefix, hrest, String.toList_append] at h
  have hprefix : rest <+: ("/".intercalate parts).toList := (List.cons_prefix_cons.mp h).2
  have hmem := hprefix.subset hslash
  rcases parts with _ | ⟨part, _ | ⟨next, parts⟩⟩
  · exact absurd hmem List.not_mem_nil
  · rw [String.intercalate_singleton] at hmem
    exact absurd hmem (hparts part List.mem_cons_self)
  · simp

/-- The mount point that the daemon writes. -/
structure IsDaemonMountPoint (mountPoint : String) : Prop where
  joined : ∃ raw, mountPoint = "/" ++ "/".intercalate (keptParts raw) ∧
    (split raw '/').contains ".." = false
  chars : all mountPoint isMountChar = true
  approved : safeMountPrefixes.any (startsWith mountPoint) = true

theorem isDaemonMountPoint_of_shareMountPoint {mountPoint : String}
    (h : Privileged.shareMountPoint payload = .ok mountPoint) : IsDaemonMountPoint mountPoint := by
  unfold Privileged.shareMountPoint at h
  obtain ⟨raw, -, h⟩ := bind_eq_ok.mp h
  obtain ⟨path, hpath, h⟩ := bind_eq_ok.mp h
  split_ifs at h with hcheck
  · exact absurd h nofun
  obtain rfl : path = mountPoint := Except.ok.inj h
  simp only [Bool.or_eq_true, Bool.not_eq_true', not_or, Bool.not_eq_true, Bool.not_eq_false]
    at hcheck
  obtain ⟨⟨hmatches, -⟩, happroved⟩ := hcheck
  unfold Privileged.normalizeMountPoint at hpath
  split_ifs at hpath with hparent
  refine ⟨⟨raw, (Except.ok.inj hpath).symm, Bool.eq_false_iff.mpr hparent⟩, ?_, happroved⟩
  exact (Bool.and_eq_true_iff.mp hmatches).2

theorem normalizedMountPoint_of_daemon {mountPoint : String} (h : IsDaemonMountPoint mountPoint) :
    normalizedMountPoint mountPoint = .ok mountPoint ∧
      2 ≤ ((split mountPoint '/').filter (· ≠ "")).length := by
  obtain ⟨raw, rfl, hparent⟩ := h.joined
  obtain ⟨approved, hmem, hstarts⟩ := List.any_eq_true.mp h.approved
  have hslash : ∀ part ∈ keptParts raw, '/' ∉ part.toList := fun _ => keptParts_no_slash
  have htwo := two_le_length_of_prefix hslash hmem hstarts
  have hne : keptParts raw ≠ [] := by
    rintro hnil
    rw [hnil] at htwo
    exact absurd htwo (by decide)
  have hsplit := split_slash_append hslash hne
  have hkept : (keptParts raw).filter (fun part => decide (part ≠ "")) = keptParts raw :=
    List.filter_eq_self.mpr fun part hpart => decide_eq_true (mem_keptParts_ne hpart).1
  have hnormal : normalComponents ("/" ++ "/".intercalate (keptParts raw)) = keptParts raw := by
    rw [normalComponents, hsplit, List.filter_cons_of_neg (by decide)]
    exact List.filter_eq_self.mpr fun part hpart => decide_eq_true (mem_keptParts_ne hpart)
  constructor
  · unfold normalizedMountPoint
    rw [if_neg, hnormal, if_pos (startsWith_append _ _)]
    rw [hsplit, List.contains_iff_mem, List.mem_cons, not_or]
    refine ⟨by decide, fun hdots => ?_⟩
    have hmem := (List.mem_filter.mp hdots).1
    rw [← List.contains_iff_mem, hparent] at hmem
    exact absurd hmem nofun
  · rw [hsplit, List.filter_cons_of_neg (by decide), hkept]
    exact htwo

theorem validateMountPoint_of_daemon {mountPoint : String} (h : IsDaemonMountPoint mountPoint)
    (hsize : mountPoint.utf8ByteSize ≤ 4096) :
    validateMountPoint (some (.string mountPoint)) = .ok mountPoint := by
  obtain ⟨hnormal, hdepth⟩ := normalizedMountPoint_of_daemon h
  have hne : mountPoint ≠ "" := by
    rintro rfl
    exact absurd h.approved (by decide)
  have haccepted : Accepted false mountPoint.toList.length mountPoint :=
    ⟨fun _ => hne, le_rfl, fun c hc => isControl_of_isMountChar (List.all_eq_true.mp h.chars c hc)⟩
  unfold validateMountPoint
  rw [plain_string haccepted hsize]
  show (normalizedMountPoint mountPoint >>= _) = _
  rw [hnormal]
  show (if _ then _ else _) = _
  rw [if_neg]
  · show (if _ then _ else _) = _
    rw [if_neg (by omega)]
    rfl
  · have hchars : (all mountPoint fun c => isAsciiAlphanumeric c || c == '.' || c == '_' ||
        c == '/' || c == ' ' || c == '-') = true := h.chars
    simp [hne, hchars, h.approved]

/-! ### The other fields -/

theorem validateName_of_daemon {name : String} (h : Accepted false 64 name)
    (hmatches : Privileged.shareNameMatches name = true) :
    validateName (some (.string name)) = .ok name := by
  simp only [Privileged.shareNameMatches, Bool.and_eq_true, decide_eq_true_eq] at hmatches
  obtain ⟨⟨-, hlength⟩, hchars⟩ := hmatches
  have hsize : name.utf8ByteSize ≤ 64 := by
    rw [utf8ByteSize_of_ascii]
    · exact hlength
    · intro c hc
      have := List.all_eq_true.mp hchars c hc
      simp only [Bool.or_eq_true, beq_iff_eq] at this
      rcases this with (hc | rfl) | rfl
      · exact ascii_of_alphanumeric hc
      all_goals decide
  unfold validateName
  rw [plain_string h hsize]
  show (if _ then _ else _) = _
  rw [hchars]
  rfl

theorem validateServer_of_daemon {server : String} (h : Accepted false 253 server)
    (hmatches : Privileged.shareHostMatches server = true) :
    validateServer (some (.string server)) = .ok server := by
  simp only [Privileged.shareHostMatches, Bool.and_eq_true, decide_eq_true_eq] at hmatches
  obtain ⟨⟨-, hlength⟩, hchars⟩ := hmatches
  have hsize : server.utf8ByteSize ≤ 253 := by
    rw [utf8ByteSize_of_ascii]
    · exact hlength
    · intro c hc
      have := List.all_eq_true.mp hchars c hc
      simp only [Bool.or_eq_true, beq_iff_eq] at this
      rcases this with (((hc | rfl) | rfl) | rfl) | rfl
      · exact ascii_of_alphanumeric hc
      all_goals decide
  unfold validateServer
  rw [plain_string h hsize]
  show (if _ then _ else _) = _
  rw [hchars]
  rfl

theorem trimStartMatches_idem (s : String) (c : Char) :
    trimStartMatches (trimStartMatches s c) c = trimStartMatches s c := by
  simp only [trimStartMatches, String.toList_ofList]
  rw [List.dropWhile_idempotent]

/-- The helper's own checks of a share path, on top of those of the daemon. -/
theorem validateSharePath_of_daemon {raw : String} (h : Accepted false 4096 raw)
    (hrefused : Privileged.sharePathRefused (trimStartMatches raw '/') = false)
    (hsize : (trimStartMatches raw '/').utf8ByteSize ≤ 4096) :
    validateSharePath (some (.string (trimStartMatches raw '/'))) =
      if containsChar (trimStartMatches raw '/') '\\' || containsChar (trimStartMatches raw '/') '"'
      then .error "share_path is invalid" else .ok (trimStartMatches raw '/') := by
  generalize hpath : trimStartMatches raw '/' = path at *
  simp only [Privileged.sharePathRefused, Bool.or_eq_false_iff] at hrefused
  obtain ⟨⟨⟨⟨hempty, hdot⟩, hdouble⟩, hpercent⟩, hparent⟩ := hrefused
  have haccepted : Accepted false path.toList.length path := by
    refine ⟨fun _ => by simpa using hempty, le_rfl, fun c hc => h.control c ?_⟩
    rw [← hpath, trimStartMatches, String.toList_ofList] at hc
    exact (List.dropWhile_sublist _).subset hc
  have htrim : trimStartMatches path '/' = path := by rw [← hpath, trimStartMatches_idem]
  unfold validateSharePath
  rw [plain_string haccepted hsize]
  show (if _ then _ else _) = _
  simp only [htrim, hempty, hdot, hdouble, hpercent, hparent, Bool.or_false, Bool.false_or]
  rfl

/-! ### The payload that the daemon builds -/

variable {writtenLength : Fields → ℕ} {request document : Value} {uid gid : UInt32}
  {spec : Privileged.ExecSpec}

/-- What the daemon adds for a new share. -/
structure IsAdded (uid gid : UInt32) (server rawPath username password domain : String)
    (autoMount mountNow : Bool) (added : Fields) : Prop where
  server_ok : Accepted false 253 server ∧ Privileged.shareHostMatches server = true
  path_ok : Accepted false 4096 rawPath ∧
    Privileged.sharePathRefused (trimStartMatches rawPath '/') = false
  username_ok : Accepted false 256 username
  password_ok : Accepted true 4096 password
  domain_ok : Accepted true 256 domain
  fields : added = [("server", .string server),
    ("share_path", .string (trimStartMatches rawPath '/')), ("username", .string username),
    ("password", .string password), ("domain", .string domain), ("auto_mount", .bool autoMount),
    ("mount_now", .bool mountNow), ("uid", .nat uid.toUInt64), ("gid", .nat gid.toUInt64)]

theorem isAdded_of_addFields {added : Fields}
    (h : Privileged.addFields payload uid gid = .ok added) :
    ∃ server rawPath username password domain autoMount mountNow,
      IsAdded uid gid server rawPath username password domain autoMount mountNow added := by
  unfold Privileged.addFields at h
  obtain ⟨server, hserver, h⟩ := bind_eq_ok.mp h
  split_ifs at h with hhost
  · exact absurd h nofun
  obtain ⟨rawPath, hpath, h⟩ := bind_eq_ok.mp h
  dsimp only at h
  split_ifs at h with hrefused
  · exact absurd h nofun
  obtain ⟨username, husername, h⟩ := bind_eq_ok.mp h
  obtain ⟨password, hpassword, h⟩ := bind_eq_ok.mp h
  obtain ⟨domain, hdomain, h⟩ := bind_eq_ok.mp h
  exact ⟨server, rawPath, username, password, domain, Privileged.flag payload "auto_mount",
    Privileged.flag payload "mount_now",
    ⟨accepted_of_shareText hserver, by simpa using hhost⟩,
    ⟨accepted_of_shareText hpath, Bool.eq_false_iff.mpr hrefused⟩,
    accepted_of_shareText husername, accepted_of_shareText hpassword,
    accepted_of_shareText hdomain, (Except.ok.inj h).symm⟩

/-- What the daemon writes for a share operation. -/
theorem networkShareStdin_eq_ok {operation : String}
    (h : Privileged.networkShareStdin writtenLength request operation uid gid = .ok document) :
    ∃ payload name mountPoint added,
      document = .object (("name", .string name) :: ("mount_point", .string mountPoint) :: added) ∧
      Accepted false 64 name ∧ Privileged.shareNameMatches name = true ∧
      IsDaemonMountPoint mountPoint ∧
      Privileged.operationFields operation payload uid gid = .ok added := by
  unfold Privileged.networkShareStdin at h
  split at h
  · next payload _ =>
    split_ifs at h with hlarge
    · exact absurd h nofun
    obtain ⟨name, hname, h⟩ := bind_eq_ok.mp h
    split_ifs at h with hmatches
    · exact absurd h nofun
    obtain ⟨mountPoint, hmount, h⟩ := bind_eq_ok.mp h
    obtain ⟨added, hadded, h⟩ := bind_eq_ok.mp h
    exact ⟨payload, name, mountPoint, added, (Except.ok.inj h).symm, accepted_of_shareText hname,
      by simpa using hmatches, isDaemonMountPoint_of_shareMountPoint hmount, hadded⟩
  · exact absurd h nofun

/-- No command of a result has a document for its input. -/
def HasNoDocument (result : Except String Privileged.ExecSpec) : Prop :=
  ∀ spec, result = .ok spec → ∀ document, spec.stdin ≠ some (.json document)

theorem HasNoDocument.ite {p : Prop} [Decidable p] {a b : Except String Privileged.ExecSpec}
    (ha : HasNoDocument a) (hb : HasNoDocument b) : HasNoDocument (if p then a else b) := by
  split_ifs
  · exact ha
  · exact hb

theorem hasNoDocument_error (error : String) : HasNoDocument (.error error) := by
  intro spec h
  cases h

theorem hasNoDocument_ok {spec : Privileged.ExecSpec} (h : ∀ document, spec.stdin ≠ some (.json document)) :
    HasNoDocument (.ok spec) := by
  intro spec' h'
  obtain rfl := Except.ok.inj h'
  exact h

/-- A command whose input is a document is a share operation. -/
theorem validateRequest_json (h : Privileged.validateRequest writtenLength request uid gid = .ok spec)
    (hstdin : spec.stdin = some (.json document)) :
    ∃ operation, (operation = "network_share_add" ∨ operation = "network_share_remove") ∧
      Privileged.networkShareStdin writtenLength request operation uid gid = .ok document ∧
      spec.argv[1]? = some (if operation = "network_share_add" then "add" else "remove") := by
  unfold Privileged.validateRequest at h
  split at h
  · next object _ =>
    generalize Privileged.text request "operation" = operation at h
    dsimp only at h
    by_cases hshare : operation = "network_share_add" ∨ operation = "network_share_remove"
    · have hother : ∀ other ∈ ["flatpak_update", "flatpak_uninstall", "firmware_update",
          "nvidia_install", "kernel_switch", "secureboot_enroll", "bitlocker_unlock"],
          operation ≠ other := by
        rcases hshare with rfl | rfl <;> decide
      simp only [List.forall_mem_cons] at hother
      obtain ⟨h1, h2, h3, h4, h5, h6, h7, -⟩ := hother
      rw [if_neg h1, if_neg h2, if_neg h3, if_neg h4, if_neg h5, if_neg h6, if_neg h7,
        if_pos hshare] at h
      obtain ⟨written, hwritten, h⟩ := bind_eq_ok.mp h
      obtain rfl := (Except.ok.inj h).symm
      obtain rfl : written = document := by injection Option.some.inj hstdin
      exact ⟨operation, hshare, hwritten, rfl⟩
    · rw [if_neg hshare] at h
      refine absurd hstdin ((?_ : HasNoDocument _) spec h document)
      repeat' apply HasNoDocument.ite
      all_goals first
        | exact hasNoDocument_error _
        | exact hasNoDocument_ok fun document => by simp
  · exact absurd h nofun

/-- The limits of the helper, in bytes, of the texts that the daemon measures in characters. -/
def byteLimits : List (String × ℕ) :=
  [("mount_point", 4096), ("share_path", 4096), ("username", 256), ("password", 4096),
    ("domain", 256)]

/-- The texts of a document are within these limits. -/
def InByteLimits (document : Value) : Prop :=
  ∀ limit ∈ byteLimits, ∀ text, document.get limit.1 = some (.string text) →
    text.utf8ByteSize ≤ limit.2

/-- The share path of a document, if it has one, holds neither a backslash nor a quote. -/
def HasPlainSharePath (document : Value) : Prop :=
  ∀ text, document.get "share_path" = some (.string text) →
    '\\' ∉ text.toList ∧ '"' ∉ text.toList

/-- The request has the texts of the document. -/
structure Carries (share : ShareRequest) (document : Value) : Prop where
  name : document.get "name" = some (.string share.name)
  mountPoint : document.get "mount_point" = some (.string share.mountPoint)
  server : document.get "server" = share.server.map .string
  sharePath : document.get "share_path" = share.sharePath.map .string
  username : document.get "username" = share.username.map .string
  password : document.get "password" = share.password.map .string
  domain : document.get "domain" = share.domain.map .string

theorem validateRequest_remove {name mountPoint : String}
    (hname : validateName (some (.string name)) = .ok name)
    (hmount : validateMountPoint (some (.string mountPoint)) = .ok mountPoint) :
    validateRequest (.object [("name", .string name), ("mount_point", .string mountPoint)]) false =
      .ok ⟨name, none, none, mountPoint, none, none, none, false, false, 0, 0⟩ := by
  unfold validateRequest
  show (validateName (some (.string name)) >>= _) = _
  rw [hname]
  show (validateMountPoint (some (.string mountPoint)) >>= _) = _
  rw [hmount]
  rfl

theorem validateRequest_add {name mountPoint server rawPath username password domain : String}
    {autoMount mountNow : Bool} {added : Fields}
    (hname : validateName (some (.string name)) = .ok name)
    (hmount : validateMountPoint (some (.string mountPoint)) = .ok mountPoint)
    (hadded : IsAdded uid gid server rawPath username password domain autoMount mountNow added)
    (husername : username.utf8ByteSize ≤ 256) (hpassword : password.utf8ByteSize ≤ 4096)
    (hdomain : domain.utf8ByteSize ≤ 256) :
    validateRequest
        (.object (("name", .string name) :: ("mount_point", .string mountPoint) :: added)) true =
      (validateSharePath (some (.string (trimStartMatches rawPath '/')))).map fun sharePath =>
        ⟨name, some server, some sharePath, mountPoint, some username, some password, some domain,
          autoMount, mountNow, uid.toNat, gid.toNat⟩ := by
  obtain rfl := hadded.fields
  unfold validateRequest
  show (validateName (some (.string name)) >>= _) = _
  rw [hname]
  show (validateMountPoint (some (.string mountPoint)) >>= _) = _
  rw [hmount]
  show (if 2 ^ 32 - 1 < uid.toUInt64.toNat ∨ 2 ^ 32 - 1 < gid.toUInt64.toNat then _ else _) = _
  rw [if_neg]
  · show (validateServer (some (.string server)) >>= _) = _
    rw [validateServer_of_daemon hadded.server_ok.1 hadded.server_ok.2]
    show (validateSharePath (some (.string (trimStartMatches rawPath '/'))) >>= _) = _
    cases validateSharePath (some (.string (trimStartMatches rawPath '/'))) with
    | error error => rfl
    | ok sharePath =>
      show (plain (some (.string username)) "username" false 256 >>= _) = _
      rw [plain_string hadded.username_ok husername]
      show (plain (some (.string password)) "password" true 4096 >>= _) = _
      rw [plain_string hadded.password_ok hpassword]
      show (plain (some (.string domain)) "domain" true 256 >>= _) = _
      rw [plain_string hadded.domain_ok hdomain]
      rfl
  · have huid := uid.toNat_lt
    have hgid := gid.toNat_lt
    rw [UInt32.toNat_toUInt64, UInt32.toNat_toUInt64]
    omega

theorem hasPlainSharePath_iff_of_added (name mountPoint : String)
    {server rawPath username password domain : String} {autoMount mountNow : Bool} {added : Fields}
    (hadded : IsAdded uid gid server rawPath username password domain autoMount mountNow added) :
    HasPlainSharePath
        (.object (("name", .string name) :: ("mount_point", .string mountPoint) :: added)) ↔
      (containsChar (trimStartMatches rawPath '/') '\\' ||
        containsChar (trimStartMatches rawPath '/') '"') = false := by
  obtain rfl := hadded.fields
  rw [Bool.or_eq_false_iff]
  constructor
  · intro h
    obtain ⟨hbackslash, hquote⟩ := h _ rfl
    exact ⟨by simpa [containsChar] using hbackslash, by simpa [containsChar] using hquote⟩
  · rintro ⟨hbackslash, hquote⟩ text htext
    obtain rfl : trimStartMatches rawPath '/' = text := by injection Option.some.inj htext
    exact ⟨by simpa [containsChar] using hbackslash, by simpa [containsChar] using hquote⟩

/-- Within the limits in bytes, the helper accepts what the daemon hands it exactly when the share path
holds neither a backslash nor a quote, and reads from it the texts that the daemon wrote. -/
theorem helper_accepts_iff (writtenLength : Fields → ℕ) (request : Value) (uid gid : UInt32)
    (spec : Privileged.ExecSpec) (document : Value)
    (h : Privileged.validateRequest writtenLength request uid gid = .ok spec)
    (hstdin : spec.stdin = some (.json document)) (hbytes : InByteLimits document) :
    (Passes (validateRequest document (spec.argv[1]? == some "add")) ↔
      HasPlainSharePath document) ∧
    ∀ share, validateRequest document (spec.argv[1]? == some "add") = .ok share →
      Carries share document := by
  obtain ⟨operation, hoperation, hdocument, hargv⟩ := validateRequest_json h hstdin
  obtain ⟨payload, name, mountPoint, added, rfl, haccepted, hmatches, hmountPoint, hadded⟩ :=
    networkShareStdin_eq_ok hdocument
  have hname := validateName_of_daemon haccepted hmatches
  have hmount := validateMountPoint_of_daemon hmountPoint
    (hbytes ("mount_point", 4096) (by decide) mountPoint rfl)
  rw [hargv]
  rcases hoperation with rfl | rfl
  · rw [Privileged.operationFields, if_pos rfl] at hadded
    obtain ⟨server, rawPath, username, password, domain, autoMount, mountNow, hadded⟩ :=
      isAdded_of_addFields hadded
    have hvalid := validateRequest_add hname hmount hadded
    have hasPlain := hasPlainSharePath_iff_of_added name mountPoint hadded
    obtain rfl := hadded.fields
    have hpath := validateSharePath_of_daemon hadded.path_ok.1 hadded.path_ok.2
      (hbytes ("share_path", 4096) (by decide) _ rfl)
    replace hvalid := hvalid (hbytes ("username", 256) (by decide) username rfl)
      (hbytes ("password", 4096) (by decide) password rfl)
      (hbytes ("domain", 256) (by decide) domain rfl)
    show (Passes (validateRequest _ true) ↔ _) ∧ ∀ share, validateRequest _ true = _ → _
    rw [hvalid, hpath, hasPlain]
    cases containsChar (trimStartMatches rawPath '/') '\\' ||
        containsChar (trimStartMatches rawPath '/') '"' with
    | true =>
      exact ⟨iff_of_false (not_passes_error _) nofun, fun share hshare => absurd hshare nofun⟩
    | false =>
      refine ⟨iff_of_true (passes_ok _) rfl, fun share hshare => ?_⟩
      obtain rfl := Except.ok.inj hshare
      exact ⟨rfl, rfl, rfl, rfl, rfl, rfl, rfl⟩
  · obtain rfl : [] = added := Except.ok.inj hadded
    show (Passes (validateRequest _ false) ↔ _) ∧ ∀ share, validateRequest _ false = _ → _
    rw [validateRequest_remove hname hmount]
    constructor
    · exact iff_of_true (passes_ok _) fun text htext => absurd htext nofun
    · rintro share hshare
      obtain rfl := Except.ok.inj hshare
      exact ⟨rfl, rfl, rfl, rfl, rfl, rfl, rfl⟩

/-- A request to add a share. -/
def addRequest (sharePath : String) : Value :=
  .object [("operation", .string "network_share_add"),
    ("payload", .object [("name", .string "media"), ("server", .string "nas.local"),
      ("share_path", .string sharePath), ("mount_point", .string "/mnt/media/"),
      ("username", .string "pat"), ("password", .string "secret"), ("domain", .string "")])]

/-- What the daemon hands to the helper for it. -/
def addDocument (sharePath : String) : Value :=
  .object [("name", .string "media"), ("mount_point", .string "/mnt/media"),
    ("server", .string "nas.local"), ("share_path", .string sharePath),
    ("username", .string "pat"), ("password", .string "secret"), ("domain", .string ""),
    ("auto_mount", .bool false), ("mount_now", .bool false), ("uid", .nat 1000), ("gid", .nat 1000)]

theorem helper_accepts_films :
    (∃ spec, Privileged.validateRequest (fun _ => 136) (addRequest "/films") 1000 1000 = .ok spec ∧
      spec.stdin = some (.json (addDocument "films"))) ∧
    Passes (validateRequest (addDocument "films") true) := by
  have hspec : Privileged.validateRequest (fun _ => 136) (addRequest "/films") 1000 1000 =
      .ok ⟨["/usr/libexec/kyth-network-share", "add"], some (.json (addDocument "films"))⟩ := rfl
  refine ⟨⟨_, hspec, rfl⟩, ?_⟩
  refine (helper_accepts_iff _ _ _ _ _ _ hspec rfl ?_).1.mpr ?_
  · intro limit hlimit text htext
    simp only [byteLimits, List.mem_cons, List.not_mem_nil, or_false] at hlimit
    rcases hlimit with rfl | rfl | rfl | rfl | rfl
    all_goals
      injection Option.some.inj htext with htext
      subst htext
      decide
  · intro text htext
    injection Option.some.inj htext with htext
    subst htext
    decide

theorem helper_refuses_backslash :
    ∃ spec, Privileged.validateRequest (fun _ => 140) (addRequest "films\\new") 1000 1000 = .ok spec ∧
      spec.stdin = some (.json (addDocument "films\\new")) ∧
      ¬ Passes (validateRequest (addDocument "films\\new") true) :=
  ⟨_, rfl, rfl, by decide⟩

end Kyth.Share
