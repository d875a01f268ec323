import Kyth.Share.Request
import Kyth.Lib.Check
import Mathlib.Data.List.AList

/-!
# The files of a share (`add_share` and `remove_share` in `network_share.rs`)

A share has two files: a mount unit, whose name comes from the mount point, and a credentials file, whose
name is the name of the share. The unit names the credentials file. `shares_kept_iff` says for which
sequences of calls the two stay together.

The other steps of a call (directories, the check of the mount path, `systemctl`) leave these files alone;
in a successful call they all work.
-/

namespace Kyth.Share

open Str Check

/-- `UNIT_OWNERSHIP_MARKER`. -/
def unitOwnershipMarker : String := "Description=KythOS SMB Share "

/-- The credentials file of a name. -/
def credentialPath (name : String) : String := "/etc/kyth/smb-credentials/" ++ name

/-- What `add_share` writes to the credentials file. -/
def credentialsText (username password domain : String) : String :=
  "username=" ++ username ++ "\npassword=" ++ password ++ "\n" ++
    (if domain = "" then "" else "domain=" ++ domain ++ "\n")

/-- The credentials of a request. -/
def ShareRequest.credentials (request : ShareRequest) : String :=
  credentialsText (request.username.getD "") (request.password.getD "") (request.domain.getD "")

/-- What `add_share` writes to the mount unit. -/
def unitText (request : ShareRequest) : String :=
  "[Unit]\n" ++ unitOwnershipMarker ++ request.name ++
    "\nAfter=network-online.target\nWants=network-online.target\n\n[Mount]\nWhat=//" ++
    request.server.getD "" ++ "/" ++ request.sharePath.getD "" ++ "\nWhere=" ++ request.mountPoint ++
    "\nType=cifs\nOptions=credentials=" ++ credentialPath request.name ++ ",uid=" ++
    toString request.uid ++ ",gid=" ++ toString request.gid ++
    ",iocharset=utf8,vers=3.0,nofail,_netdev\nTimeoutSec=30\n\n" ++
    "[Install]\nWantedBy=multi-user.target\n\n"

/-- A file among the units: the one that the add of a request wrote, or one of somebody else. -/
inductive UnitFile
  | share (request : ShareRequest)
  | other (text : String)

/-- The text of a unit file. -/
def UnitFile.text : UnitFile → String
  | .share request => unitText request
  | .other text => text

/-- `unit_is_hub_owned`. -/
def UnitFile.isHubOwned (file : UnitFile) : Bool := contains file.text unitOwnershipMarker

/-- The credentials files by name and the unit files. -/
structure Files where
  credentials : AList fun _ : String => String := ∅
  units : AList fun _ : String => UnitFile := ∅

/-- A call. The failures of the two deletions of a removal are ignored: `unitGone` says whether the unit
file is gone after its deletion, and `left` is what is then found at the path of the credentials. -/
inductive Call
  | add (request : ShareRequest)
  | remove (request : ShareRequest) (unitGone : Bool) (left : Option String)

section

-- The name of the mount unit of a path, by `systemd-escape`.
variable (mountUnit : String → String)

/-- `add_share`. -/
def addShare (request : ShareRequest) (files : Files) : Except String Files := do
  if request.server = none then throw "server is required"
  if request.sharePath = none then throw "share_path is required"
  if request.username = none then throw "username is required"
  let unit := mountUnit request.mountPoint
  -- A unit that is not marked belongs to the administrator.
  if (files.units.lookup unit).any fun file => !file.isHubOwned then
    throw ("refusing to overwrite " ++ unit ++ ": not a KythOS-managed share unit")
  return {
    credentials := files.credentials.insert request.name request.credentials
    units := files.units.insert unit (.share request) }

/-- `remove_share`. -/
def removeShare (request : ShareRequest) (unitGone : Bool) (left : Option String) (files : Files) :
    Except String Files := do
  let unit := mountUnit request.mountPoint
  if (files.units.lookup unit).any fun file => !file.isHubOwned then
    throw ("refusing to remove " ++ unit ++ ": not a KythOS-managed share unit")
  return {
    credentials := left.elim (files.credentials.erase request.name)
      (files.credentials.insert request.name)
    units := if unitGone then files.units.erase unit else files.units }

/-- The files after a call. -/
def Call.apply (files : Files) : Call → Except String Files
  | .add request => addShare mountUnit request files
  | .remove request unitGone left => removeShare mountUnit request unitGone left files

/-- The files after a sequence of calls. -/
def runCalls (start : Files) (calls : List Call) : Except String Files :=
  calls.foldlM (Call.apply mountUnit) start

end

/-! ### What is asked of a call -/

/-- Every Hub-owned unit was written by an add, and the credentials file that it names holds what this
add asked for. -/
def CredentialsMatch (files : Files) : Prop :=
  ∀ unit file, files.units.lookup unit = some file → file.isHubOwned = true →
    ∃ request, file = .share request ∧
      files.credentials.lookup request.name = some request.credentials

/-- The files of every share with another name or another mount point are as before. -/
def OthersKept (removed : ShareRequest) (files files' : Files) : Prop :=
  ∀ unit request, files.units.lookup unit = some (.share request) →
    (request.name ≠ removed.name ∨ request.mountPoint ≠ removed.mountPoint) →
    files'.units.lookup unit = some (.share request) ∧
      files'.credentials.lookup request.name = files.credentials.lookup request.name

/-- What is asked of a call. -/
def Call.Keeps (files files' : Files) : Call → Prop
  | .add _ => CredentialsMatch files'
  | .remove request _ _ => CredentialsMatch files' ∧ OthersKept request files files'

/-- The name of the call belongs to no share at another mount point, and the mount point of a removal
to no share of another name: such a share shares a file with the one of the call. -/
def Call.IsSeparate (files : Files) : Call → Prop
  | .add request => ∀ unit other, files.units.lookup unit = some (.share other) →
      other.name = request.name → other.mountPoint ≠ request.mountPoint →
      other.credentials = request.credentials
  | .remove request unitGone left => ∀ unit other, files.units.lookup unit = some (.share other) →
      (other.name = request.name → (other.mountPoint ≠ request.mountPoint ∨ unitGone = false) →
        left = some other.credentials) ∧
      (other.mountPoint = request.mountPoint → other.name ≠ request.name → unitGone = false)

/-- A request that has passed `validate_request`. -/
def Validated (request : ShareRequest) : Prop :=
  ∃ payload adding, validateRequest payload adding = .ok request

/-- The request of a call. -/
def Call.request : Call → ShareRequest
  | .add request => request
  | .remove request _ _ => request

/-- Different mount points have different units. -/
def Escapes (mountUnit : String → String) : Prop :=
  ∀ request other, Validated request → Validated other →
    mountUnit request.mountPoint = mountUnit other.mountPoint →
    request.mountPoint = other.mountPoint

variable {mountUnit : String → String} {files files' : Files} {request other : ShareRequest}
  {unitGone : Bool} {left : Option String} {call : Call} {unit : String}

/-- The units lie where their mount points say, and those of others are not marked. -/
structure Placed (mountUnit : String → String) (files : Files) : Prop where
  share : ∀ unit request, files.units.lookup unit = some (.share request) →
    unit = mountUnit request.mountPoint ∧ Validated request
  other : ∀ unit text, files.units.lookup unit = some (.other text) →
    (UnitFile.other text).isHubOwned = false

theorem isHubOwned_share (request : ShareRequest) : (UnitFile.share request).isHubOwned = true := by
  unfold UnitFile.isHubOwned UnitFile.text contains unitText
  rw [decide_eq_true_iff]
  simp only [String.toList_append, List.append_assoc]
  exact List.infix_append' _ _ _

/-! ### One call -/

theorem addShare_eq_ok (h : addShare mountUnit request files = .ok files') :
    files' = {
      credentials := files.credentials.insert request.name request.credentials
      units := files.units.insert (mountUnit request.mountPoint) (.share request) } := by
  unfold addShare at h
  dsimp only at h
  split_ifs at h
  all_goals first
    | exact (Except.ok.inj h).symm
    | exact absurd h nofun

theorem removeShare_eq_ok (h : removeShare mountUnit request unitGone left files = .ok files') :
    files' = {
      credentials := left.elim (files.credentials.erase request.name)
        (files.credentials.insert request.name)
      units := if unitGone then files.units.erase (mountUnit request.mountPoint)
        else files.units } := by
  unfold removeShare at h
  dsimp only at h
  by_cases hforeign : ((files.units.lookup (mountUnit request.mountPoint)).any
      fun file => !file.isHubOwned) = true
  · rw [if_pos hforeign] at h
    exact absurd h nofun
  · rw [if_neg hforeign] at h
    exact (Except.ok.inj h).symm

/-- The credentials after a removal. -/
theorem lookup_left_elim (credentials : AList fun _ : String => String) (left : Option String)
    (name key : String) :
    (left.elim (credentials.erase name) (credentials.insert name)).lookup key =
      if key = name then left else credentials.lookup key := by
  by_cases hkey : key = name
  · subst hkey
    rw [if_pos rfl]
    cases left with
    | none => exact AList.lookup_erase key credentials
    | some text => exact AList.lookup_insert credentials
  · rw [if_neg hkey]
    cases left with
    | none => exact AList.lookup_erase_ne hkey
    | some text => exact AList.lookup_insert_ne hkey

/-- The units after a removal. -/
theorem lookup_units_remove (units : AList fun _ : String => UnitFile) (unitGone : Bool)
    (removed unit : String) (file : UnitFile) :
    (if unitGone then units.erase removed else units).lookup unit = some file ↔
      units.lookup unit = some file ∧ (unitGone = true → unit ≠ removed) := by
  cases unitGone with
  | false => simp
  | true =>
    by_cases hunit : unit = removed
    · subst hunit
      simp
    · simp [AList.lookup_erase_ne hunit, hunit]

theorem Placed.apply (h : Placed mountUnit files) (hvalid : Validated call.request)
    (happly : call.apply mountUnit files = .ok files') : Placed mountUnit files' := by
  cases call with
  | add request =>
    obtain rfl := addShare_eq_ok happly
    constructor
    · intro unit other hother
      by_cases hunit : unit = mountUnit request.mountPoint
      · subst hunit
        rw [AList.lookup_insert, Option.some.injEq, UnitFile.share.injEq] at hother
        exact hother ▸ ⟨rfl, hvalid⟩
      · rw [AList.lookup_insert_ne hunit] at hother
        exact h.share unit other hother
    · intro unit text htext
      by_cases hunit : unit = mountUnit request.mountPoint
      · subst hunit
        rw [AList.lookup_insert] at htext
        exact absurd (Option.some.inj htext) nofun
      · rw [AList.lookup_insert_ne hunit] at htext
        exact h.other unit text htext
  | remove request unitGone left =>
    obtain rfl := removeShare_eq_ok happly
    constructor
    · intro unit other hother
      exact h.share unit other ((lookup_units_remove _ _ _ _ _).mp hother).1
    · intro unit text htext
      exact h.other unit text ((lookup_units_remove _ _ _ _ _).mp htext).1

/-- A share of another mount point has another unit. -/
theorem Placed.unit_ne (h : Placed mountUnit files) (hescapes : Escapes mountUnit)
    (hvalid : Validated request) (hother : files.units.lookup unit = some (.share other)) :
    unit ≠ mountUnit request.mountPoint ↔ other.mountPoint ≠ request.mountPoint := by
  obtain ⟨rfl, hothervalid⟩ := h.share unit other hother
  exact not_congr ⟨hescapes other request hothervalid hvalid, congrArg mountUnit⟩

theorem CredentialsMatch.share (h : CredentialsMatch files)
    (hother : files.units.lookup unit = some (.share other)) :
    files.credentials.lookup other.name = some other.credentials := by
  obtain ⟨request, hrequest, hlookup⟩ := h unit _ hother (isHubOwned_share other)
  rw [UnitFile.share.injEq] at hrequest
  exact hrequest ▸ hlookup

theorem keeps_add_iff (hplaced : Placed mountUnit files) (hescapes : Escapes mountUnit)
    (hmatch : CredentialsMatch files) (hvalid : Validated request)
    (happly : addShare mountUnit request files = .ok files') :
    CredentialsMatch files' ↔ (Call.add request).IsSeparate files := by
  obtain rfl := addShare_eq_ok happly
  constructor
  · intro hmatch' unit other hother hname hmount
    have hunit := (hplaced.unit_ne hescapes hvalid hother).mpr hmount
    have hlookup : (files.units.insert (mountUnit request.mountPoint) (.share request)).lookup unit =
        some (.share other) := (AList.lookup_insert_ne hunit).trans hother
    have hkept := hmatch'.share hlookup
    rw [hname, AList.lookup_insert, Option.some.injEq] at hkept
    exact hkept.symm
  · intro hseparate unit file hfile howned
    by_cases hunit : unit = mountUnit request.mountPoint
    · subst hunit
      rw [AList.lookup_insert, Option.some.injEq] at hfile
      exact ⟨request, hfile.symm, AList.lookup_insert _⟩
    · rw [AList.lookup_insert_ne hunit] at hfile
      obtain ⟨other, rfl, hcredentials⟩ := hmatch unit file hfile howned
      refine ⟨other, rfl, ?_⟩
      by_cases hname : other.name = request.name
      · have hmount := (hplaced.unit_ne hescapes hvalid hfile).mp hunit
        rw [hname, AList.lookup_insert, hseparate unit other hfile hname hmount]
      · rw [AList.lookup_insert_ne hname, hcredentials]

theorem keeps_remove_iff (hplaced : Placed mountUnit files) (hescapes : Escapes mountUnit)
    (hmatch : CredentialsMatch files) (hvalid : Validated request)
    (happly : removeShare mountUnit request unitGone left files = .ok files') :
    (CredentialsMatch files' ∧ OthersKept request files files') ↔
      (Call.remove request unitGone left).IsSeparate files := by
  obtain rfl := removeShare_eq_ok happly
  constructor
  · rintro ⟨hmatch', hothers⟩ unit other hother
    refine ⟨fun hname hkept => ?_, fun hmount hname => ?_⟩
    · have hthere := (lookup_units_remove files.units unitGone (mountUnit request.mountPoint) unit
        (.share other)).mpr ⟨hother, fun hgone => ?_⟩
      · have hcredentials := hmatch'.share hthere
        rwa [lookup_left_elim, if_pos hname] at hcredentials
      · rcases hkept with hmount | hgone'
        · exact (hplaced.unit_ne hescapes hvalid hother).mpr hmount
        · exact absurd (hgone.symm.trans hgone') nofun
    · have hthere := (lookup_units_remove _ _ _ _ _).mp (hothers unit other hother (Or.inl hname)).1
      cases unitGone with
      | false => rfl
      | true =>
        exact absurd hmount ((hplaced.unit_ne hescapes hvalid hother).mp (hthere.2 rfl))
  · intro hseparate
    constructor
    · intro unit file hfile howned
      obtain ⟨hold, hunit⟩ := (lookup_units_remove _ _ _ _ _).mp hfile
      obtain ⟨other, rfl, hcredentials⟩ := hmatch unit file hold howned
      refine ⟨other, rfl, ?_⟩
      rw [lookup_left_elim]
      by_cases hname : other.name = request.name
      · rw [if_pos hname]
        refine (hseparate unit other hold).1 hname ?_
        cases unitGone with
        | false => exact Or.inr rfl
        | true => exact Or.inl ((hplaced.unit_ne hescapes hvalid hold).mp (hunit rfl))
      · rw [if_neg hname, hcredentials]
    · intro unit other hother hdiffers
      have hcredentials := hmatch.share hother
      -- A share with this mount point has another name here, so its unit was not deleted.
      have hunit : unitGone = true → unit ≠ mountUnit request.mountPoint := by
        intro hgone
        refine (hplaced.unit_ne hescapes hvalid hother).mpr fun hmount => ?_
        have hname : other.name ≠ request.name := hdiffers.resolve_right (not_not.mpr hmount)
        exact absurd (hgone.symm.trans ((hseparate unit other hother).2 hmount hname)) nofun
      refine ⟨(lookup_units_remove _ _ _ _ _).mpr ⟨hother, hunit⟩, ?_⟩
      rw [lookup_left_elim]
      by_cases hname : other.name = request.name
      · have hmount : other.mountPoint ≠ request.mountPoint :=
          hdiffers.resolve_left (not_not.mpr hname)
        rw [if_pos hname, hcredentials, (hseparate unit other hother).1 hname (Or.inl hmount)]
      · rw [if_neg hname]

/-- A call keeps what is asked of it exactly when it is separate from the other shares. -/
theorem Call.keeps_iff (hplaced : Placed mountUnit files) (hescapes : Escapes mountUnit)
    (hmatch : CredentialsMatch files) (hvalid : Validated call.request)
    (happly : call.apply mountUnit files = .ok files') :
    call.Keeps files files' ↔ call.IsSeparate files := by
  cases call with
  | add request => exact keeps_add_iff hplaced hescapes hmatch hvalid happly
  | remove request unitGone left => exact keeps_remove_iff hplaced hescapes hmatch hvalid happly

theorem Call.Keeps.credentialsMatch (h : call.Keeps files files') : CredentialsMatch files' := by
  cases call with
  | add request => exact h
  | remove request unitGone left => exact h.1

/-! ### Sequences of calls -/

variable {start last : Files} {calls before after : List Call}

theorem runCalls_append (mountUnit : String → String) (start : Files) (before after : List Call) :
    runCalls mountUnit start (before ++ after) =
      runCalls mountUnit start before >>= fun files => runCalls mountUnit files after := by
  unfold runCalls
  exact List.foldlM_append

/-- Every call of a sequence that succeeds is made, on the files that the calls before it left. -/
theorem exists_apply_of_runCalls
    (hrun : runCalls mountUnit start (before ++ call :: after) = .ok last) :
    ∃ files files', runCalls mountUnit start before = .ok files ∧
      call.apply mountUnit files = .ok files' := by
  rw [runCalls_append] at hrun
  obtain ⟨files, hbefore, hrest⟩ := bind_eq_ok.mp hrun
  obtain ⟨files', happly, -⟩ := bind_eq_ok.mp hrest
  exact ⟨files, files', hbefore, happly⟩

/-- Nothing among the units is marked as a share. -/
def IsFresh (files : Files) : Prop :=
  ∀ unit file, files.units.lookup unit = some file → file.isHubOwned = false

theorem IsFresh.placed (h : IsFresh files) : Placed mountUnit files where
  share unit request hrequest :=
    absurd ((h unit _ hrequest).symm.trans (isHubOwned_share request)) nofun
  other unit _ htext := h unit _ htext

theorem IsFresh.credentialsMatch (h : IsFresh files) : CredentialsMatch files :=
  fun unit file hfile howned => absurd ((h unit file hfile).symm.trans howned) nofun

/-- The files before each call, when no call so far leaves credentials that do not match. -/
theorem placed_and_match (hstart : IsFresh start)
    (hvalid : ∀ call ∈ before, Validated call.request)
    (hstep : ∀ earlier call later files files', before = earlier ++ call :: later →
      runCalls mountUnit start earlier = .ok files → Placed mountUnit files →
      CredentialsMatch files → call.apply mountUnit files = .ok files' → CredentialsMatch files')
    (hbefore : runCalls mountUnit start before = .ok files) :
    Placed mountUnit files ∧ CredentialsMatch files := by
  induction before using List.reverseRecOn generalizing files with
  | nil =>
    obtain rfl : start = files := Except.ok.inj hbefore
    exact ⟨hstart.placed, hstart.credentialsMatch⟩
  | append_singleton before call ih =>
    rw [runCalls_append] at hbefore
    obtain ⟨mid, hmid, hrest⟩ := bind_eq_ok.mp hbefore
    obtain ⟨files', happly, hfiles⟩ := bind_eq_ok.mp hrest
    obtain rfl : files' = files := Except.ok.inj hfiles
    obtain ⟨hplaced, hmatch⟩ := ih (fun c hc => hvalid c (List.mem_append_left _ hc))
      (fun earlier c later f f' hsplit =>
        hstep earlier c (later ++ [call]) f f' (by rw [hsplit]; simp)) hmid
    exact ⟨hplaced.apply (hvalid call (by simp)) happly,
      hstep before call [] mid files' rfl hmid hplaced hmatch happly⟩

/-- In a sequence of successful calls, every call keeps the files of the shares together and those of the
other shares as they are, exactly when every call is separate from the other shares. -/
theorem shares_kept_iff (mountUnit : String → String) (hescapes : Escapes mountUnit) (start last : Files)
    (hstart : IsFresh start) (calls : List Call) (hvalid : ∀ call ∈ calls, Validated call.request)
    (hrun : runCalls mountUnit start calls = .ok last) :
    (∀ before call after files files', calls = before ++ call :: after →
      runCalls mountUnit start before = .ok files → call.apply mountUnit files = .ok files' →
      call.Keeps files files') ↔
    ∀ before call after files, calls = before ++ call :: after →
      runCalls mountUnit start before = .ok files → call.IsSeparate files := by
  constructor
  · rintro hkeeps before call after files rfl hbefore
    obtain ⟨mid, files', hmid, happly⟩ := exists_apply_of_runCalls hrun
    obtain rfl : files = mid := Except.ok.inj (hbefore.symm.trans hmid)
    obtain ⟨hplaced, hmatch⟩ := placed_and_match hstart
      (fun c hc => hvalid c (List.mem_append_left _ hc))
      (fun earlier c later f f' hsplit hf _ _ hf' =>
        (hkeeps earlier c (later ++ call :: after) f f' (by rw [hsplit]; simp) hf
          hf').credentialsMatch) hbefore
    exact (Call.keeps_iff hplaced hescapes hmatch (hvalid call (by simp)) happly).mp
      (hkeeps before call after files files' rfl hbefore happly)
  · rintro hseparate before call after files files' rfl hbefore happly
    obtain ⟨hplaced, hmatch⟩ := placed_and_match hstart
      (fun c hc => hvalid c (List.mem_append_left _ hc)) (by
        rintro earlier c later f f' rfl hf hplaced hmatch hf'
        have hkeeps := (Call.keeps_iff hplaced hescapes hmatch (hvalid c (by simp)) hf').mpr
          (hseparate earlier c (later ++ call :: after) f (by simp) hf)
        exact hkeeps.credentialsMatch) hbefore
    exact (Call.keeps_iff hplaced hescapes hmatch (hvalid call (by simp)) happly).mpr
      (hseparate before call after files rfl hbefore)

/-- A request to mount the share `media` of a server. -/
def mediaShare (mountPoint password : String) : ShareRequest :=
  ⟨"media", some "nas.local", some "media", mountPoint, some "pat", some password, some "", true,
    false, 1000, 1000⟩

theorem validated_mediaShare : Validated (mediaShare "/mnt/media" "secret") ∧
    Validated (mediaShare "/mnt/music" "other") := by
  constructor
  · exact ⟨.object [("name", .string "media"), ("server", .string "nas.local"),
      ("share_path", .string "media"), ("mount_point", .string "/mnt/media"),
      ("username", .string "pat"), ("password", .string "secret"), ("domain", .string ""),
      ("auto_mount", .bool true), ("mount_now", .bool false), ("uid", .nat 1000), ("gid", .nat 1000)],
      true, rfl⟩
  · exact ⟨.object [("name", .string "media"), ("server", .string "nas.local"),
      ("share_path", .string "media"), ("mount_point", .string "/mnt/music"),
      ("username", .string "pat"), ("password", .string "other"), ("domain", .string ""),
      ("auto_mount", .bool true), ("mount_now", .bool false), ("uid", .nat 1000), ("gid", .nat 1000)],
      true, rfl⟩

/-- The units of two mount points; other paths get a name that is no unit of them. -/
def twoUnits (path : String) : String :=
  if path = "/mnt/media" then "mnt-media.mount"
  else if path = "/mnt/music" then "mnt-music.mount"
  else "-" ++ path

theorem escapes_twoUnits : Escapes twoUnits := by
  have hdash : ∀ path, "-" ++ path ≠ "mnt-media.mount" ∧ "-" ++ path ≠ "mnt-music.mount" := by
    intro path
    constructor <;>
    · intro h
      have hhead := congrArg (fun text => text.toList.head?) h
      rw [String.toList_append] at hhead
      have hchars : some '-' = some 'm' := hhead
      exact absurd hchars (by decide)
  intro request other _ _ h
  generalize request.mountPoint = first at *
  generalize other.mountPoint = second at *
  unfold twoUnits at h
  split_ifs at h with h1 h2 h3 h4 h5 h6
  · exact h1.trans h2.symm
  · exact absurd h (by decide)
  · exact absurd h.symm (hdash second).1
  · exact absurd h (by decide)
  · exact h4.trans h6.symm
  · exact absurd h.symm (hdash second).2
  · exact absurd h (hdash first).1
  · exact absurd h (hdash first).2
  · exact (String.append_right_inj "-").mp h

theorem isFresh_empty : IsFresh {} := fun _ _ h => absurd h nofun

theorem shares_kept_media :
    ∃ last, runCalls twoUnits {} [.add (mediaShare "/mnt/media" "secret")] = .ok last ∧
      CredentialsMatch last := by
  have hrun : ∃ last, runCalls twoUnits {} [.add (mediaShare "/mnt/media" "secret")] = .ok last :=
    ⟨_, rfl⟩
  obtain ⟨last, hlast⟩ := hrun
  refine ⟨last, hlast, ?_⟩
  have hkept := (shares_kept_iff twoUnits escapes_twoUnits {} last isFresh_empty
    [.add (mediaShare "/mnt/media" "secret")] (by simpa [Call.request] using validated_mediaShare.1)
    hlast).mpr ?_
  · obtain ⟨files', happly, hfiles⟩ := bind_eq_ok.mp hlast
    obtain rfl : files' = last := Except.ok.inj hfiles
    exact hkept [] _ [] {} files' rfl rfl happly
  · intro before call after files hsplit hbefore
    cases before with
    | nil =>
      obtain ⟨rfl, -⟩ := List.cons_eq_cons.mp hsplit
      obtain rfl : {} = files := Except.ok.inj hbefore
      exact fun _ _ hother => absurd hother nofun
    | cons first before =>
      exact absurd (List.cons_eq_cons.mp hsplit).2 (by simp)

/-- A second share under the same name, at another mount point. -/
theorem second_share_takes_credentials :
    ∃ files files', runCalls twoUnits {} [.add (mediaShare "/mnt/media" "secret")] = .ok files ∧
      (Call.add (mediaShare "/mnt/music" "other")).apply twoUnits files = .ok files' ∧
      ¬ (Call.add (mediaShare "/mnt/music" "other")).Keeps files files' := by
  refine ⟨_, _, rfl, rfl, fun hmatch => ?_⟩
  obtain ⟨request, hrequest, hlookup⟩ := hmatch "mnt-media.mount" _ rfl (isHubOwned_share _)
  obtain rfl : mediaShare "/mnt/media" "secret" = request := UnitFile.share.inj hrequest
  exact absurd hlookup (by decide)

end Kyth.Share
