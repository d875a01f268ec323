import Kyth.Lib.Utf8
import Kyth.Transfer.Disk

/-!
# Making a setup archive (`setup_transfer.rs`)

`export_setup` copies the allowlisted paths of the home directory into a new directory, following links, and
writes a manifest of the paths that were copied without an error. The directory is a file tree of its own, in
which the settings lie below `files`.

`copyDirDerefInner_spec` says that a directory whose entries all lead to files, or to directories that are not
too deep, is copied with every file in it.
-/

namespace Kyth.Transfer

open FileTree FileTree.Tree Json Serde Str

/-- The content of a file. -/
abbrev Bytes := List UInt8

variable {C : Type}

/-- `to_string_lossy` of a file name. -/
def toStringLossy (name : FileName) : String :=
  match String.fromUTF8? ⟨name.toArray⟩ with
  | some s => s
  | none => String.ofList (Utf8.fromUtf8Lossy name)

/-- The place of the settings in the new directory. -/
def filesName : FileName := nameOf "files"

/-- `if symlink_metadata(target).is_ok() { remove_file(target)? }`. -/
def Disk.clear (d : Disk C) (target : Place FileName) : Option (Disk C) :=
  if d.tree.lstat [] (target.map Step.down) = none then some d
  else (d.tree.removeFile [] (target.map Step.down)).map fun tree => { d with tree }

/-- `copy_file_deref`: the file that the source leads to is copied. -/
def copyFileDeref (t : Tree FileName C) (root : Place FileName) (source : List (Step FileName)) (d : Disk C)
    (target : Place FileName) : Disk C × Bool :=
  match d.clear target with
  | none => (d, false)
  | some d' =>
      match t.stat root source with
      | some (.file content) => d'.copy content [] (target.map Step.down)
      | _ => (d', false)

/-- The depth up to which directories are copied. -/
def maxDepth : ℕ := 32

/-- `copy_dir_deref_inner` at the depth `maxDepth + 1 - levels`. -/
def copyDirDerefInner (t : Tree FileName C) (root : Place FileName) :
    ℕ → List (Step FileName) → Disk C → Place FileName → Disk C × Bool
  | 0, _, d, _ => (d, false)
  | levels + 1, source, d, target =>
      match d.createDirAll [] [] target with
      | (d', false) => (d', false)
      | (d', true) =>
          match t.readDir root source with
          | none => (d', false)
          | some names =>
              eachEntry (fun d n =>
                if t.stat root (source ++ [.down n]) = some .dir then
                  copyDirDerefInner t root levels (source ++ [.down n]) d (target ++ [n])
                else copyFileDeref t root (source ++ [.down n]) d (target ++ [n])) names d'

/-- `copy_into_payload`. -/
def copyIntoPayload (t : Tree FileName C) (root : Place FileName) (d : Disk C) (rel : String) :
    Disk C × Bool :=
  let target := filesName :: placeOf rel
  if t.lstat root (stepsOf rel) = none then (d, false)
  else
    match d.createDirAll [] [] target.dropLast with
    | (d', false) => (d', false)
    | (d', true) =>
        if t.stat root (stepsOf rel) = some .dir then
          copyDirDerefInner t root (maxDepth + 1) (stepsOf rel) d' target
        else copyFileDeref t root (stepsOf rel) d' target

/-- The order of texts. -/
def textLe (a b : String) : Prop := a ≤ b

instance : DecidableRel textLe := fun a b => inferInstanceAs (Decidable (a ≤ b))

/-- `desktop_entry_rels`. -/
def desktopEntryRels (t : Tree FileName C) (root : Place FileName) : List String :=
  match t.readDir root (stepsOf ".local/share/applications") with
  | none => []
  | some names =>
      (((names.map toStringLossy).filter isLauncher).map
        launcherRel).insertionSort textLe

/-- One round of the loops of `export_setup`, over the new directory and the paths copied so far. -/
def exportPath (t : Tree FileName C) (root : Place FileName) (state : Disk C × List String) (rel : String) :
    Disk C × List String :=
  match copyIntoPayload t root state.1 rel with
  | (d', true) => (d', state.2 ++ [rel])
  | (d', false) => (d', state.2)

/-- One round of the second loop, which passes over paths that have been copied. -/
def exportLauncher (t : Tree FileName C) (root : Place FileName) (state : Disk C × List String)
    (rel : String) : Disk C × List String :=
  if state.2.contains rel then state else exportPath t root state rel

/-- The copies that `export_setup` makes, and the paths of its manifest. -/
def stageFiles (t : Tree FileName C) (root : Place FileName) : Disk C × List String :=
  let configs := configPaths.foldl (exportPath t root) ({ tree := Tree.empty }, [])
  let all := (desktopEntryRels t root).foldl (exportLauncher t root) configs
  (all.1, all.2.insertionSort textLe)

/-- `SECRETS_EXCLUDED`. -/
def secretsExcluded : List String :=
  ["browser profiles and cookies", "KWallet contents", "rclone OAuth tokens", "SMB passwords"]

/-- What other programs say for the manifest. -/
structure Answers where
  created : String
  hostname : String
  flatpaks : List SetupFlatpak
  defaultApps : AList fun _ : String => String
  cloudRemotes : List Value

/-- `to_value` of a Flatpak. -/
def encodeFlatpak (app : SetupFlatpak) : Value :=
  .object [("id", .string app.id), ("origin", .string app.origin)]

/-- The manifest. -/
def manifestValue (answers : Answers) (copied : List String) : Value :=
  .object [("format", .string "KythOS setup transfer"), ("version", Value.nat 1),
    ("created", .string answers.created), ("hostname", .string answers.hostname),
    ("flatpaks", .array (answers.flatpaks.map encodeFlatpak)),
    ("default_apps", .object (encodeMap Value.string answers.defaultApps)),
    ("cloud_remotes", .array answers.cloudRemotes), ("copied_paths", .array (copied.map Value.string)),
    ("secrets_excluded", .array (secretsExcluded.map Value.string))]

/-- The text of the manifest file; `toStringPretty` is that of `serde_json`. -/
def manifestText (toStringPretty : Value → String) (answers : Answers) (copied : List String) : Bytes :=
  nameOf (toStringPretty (manifestValue answers copied) ++ "\n")

/-- The new directory of `export_setup`, as `tar` finds it. -/
def exportSetup (toStringPretty : Value → String) (answers : Answers) (t : Tree FileName Bytes)
    (root : Place FileName) : Disk Bytes × Bool :=
  let staged := stageFiles t root
  staged.1.copy (manifestText toStringPretty answers staged.2) [] [.down (nameOf "manifest.json")]

/-! ### Names as texts -/

theorem toStringLossy_nameOf (s : String) : toStringLossy (nameOf s) = s := by
  have hbytes : (⟨(nameOf s).toArray⟩ : ByteArray) = s.toByteArray := by
    rw [nameOf, Array.toArray_toList]
    rfl
  have hvalid : String.fromUTF8? s.toByteArray = some s := by
    rw [String.fromUTF8?, dif_pos s.isValidUTF8]
    rfl
  rw [toStringLossy, hbytes, hvalid]

theorem nameOf_eq_flatMap (s : String) : nameOf s = s.toList.flatMap String.utf8EncodeChar := by
  rw [nameOf, String.toUTF8_eq_toByteArray, ← String.utf8Encode_toList]
  simp [List.utf8Encode]

/-- A name without a slash is written without one. -/
theorem slash_notMem_toStringLossy {name : FileName} (h : 47 ∉ name) : '/' ∉ (toStringLossy name).toList := by
  unfold toStringLossy
  cases htext : String.fromUTF8? ⟨name.toArray⟩ with
  | none =>
    rw [String.toList_ofList]
    intro hmem
    obtain ⟨b, hb, heq⟩ := Utf8.mem_of_mem_fromUtf8Lossy hmem (by decide) (by decide)
    rw [show b = 47 from UInt8.toNat_inj.1 heq] at hb
    exact h hb
  | some s =>
    have hname : nameOf s = name := by
      rw [String.fromUTF8?] at htext
      split_ifs at htext
      rw [← Option.some.inj htext]
      rfl
    intro hmem
    rw [← hname, nameOf_eq_flatMap] at h
    exact h (List.mem_flatMap.2 ⟨'/', hmem, by decide⟩)

/-! ### One file or directory -/

variable {t : Tree FileName C} {root P : Place FileName} {n : FileName} {d d' : Disk C}
  {source : List (Step FileName)}

/-- There is no link. -/
def NoLinks (d : Disk C) : Prop := ∀ p target, d.tree.kind p ≠ some (.link target)

theorem NoLinks.within {A : Place FileName → Prop} (h : NoLinks d) (hwithin : Within A d d') : NoLinks d' :=
  fun p target hp => h p target (hwithin.links hp)

theorem leads_place (hdir : d.tree.kind P = some .dir) : Leads d.tree [] (P.map Step.down) :=
  leads_of_dir (by simp) (by simpa using hdir)

theorem dirs_of_dir (hdir : d.tree.kind P = some .dir) :
    ∀ q, q <+: P → d.tree.kind ([] ++ q) = some .dir := by
  have hdirs := (leads_place hdir).dirs
  rwa [spelled_map_down] at hdirs

theorem lstat_place (hdir : d.tree.kind P = some .dir) (hlinks : NoLinks d) :
    d.tree.walk false maxLinks [] ((P ++ [n]).map Step.down) = some (P ++ [n]) := by
  have hwalk := (leads_place hdir).walk_down (n := n) here_nil
    (fun target => hlinks _ target) false
  simpa using hwalk

/-- What is at the target is gone afterwards, if it can be removed. -/
theorem clear_spec (hdir : d.tree.kind P = some .dir) (hlinks : NoLinks d) (h : d.clear (P ++ [n]) = some d') :
    Below (P ++ [n]) d d' ∧ d'.tree.kind (P ++ [n]) = none := by
  unfold Disk.clear at h
  split_ifs at h with hnone
  · obtain rfl := Option.some.inj h
    refine ⟨Within.refl _ d, ?_⟩
    rwa [lstat, lstat_place hdir hlinks, Option.bind_some] at hnone
  · obtain ⟨tree, hremove, rfl⟩ := Option.map_eq_some_iff.1 h
    obtain ⟨p, hp, -, -, rfl⟩ := removeFile_eq_some.1 hremove
    rw [lstat_place hdir hlinks, Option.some.injEq] at hp
    subst hp
    refine ⟨Within.remove (by simp) fun _ hp => hp, ?_⟩
    show (d.tree.remove (P ++ [n])).kind (P ++ [n]) = none
    rw [kind_remove (by simp), if_pos (List.prefix_refl _)]

theorem clear_of_none (hdir : d.tree.kind P = some .dir) (hlinks : NoLinks d)
    (hnone : d.tree.kind (P ++ [n]) = none) : d.clear (P ++ [n]) = some d := by
  unfold Disk.clear
  rw [if_pos]
  rw [lstat, lstat_place hdir hlinks, Option.bind_some, hnone]

theorem copyFileDeref_below (hdir : d.tree.kind P = some .dir) (hlinks : NoLinks d) :
    Below (P ++ [n]) d (copyFileDeref t root source d (P ++ [n])).1 := by
  unfold copyFileDeref
  cases hclear : d.clear (P ++ [n]) with
  | none => exact Within.refl _ d
  | some d' =>
    obtain ⟨hbelow, hnone⟩ := clear_spec hdir hlinks hclear
    have hcopy (content : C) : Below (P ++ [n]) d' (d'.copy content [] ((P ++ [n]).map Step.down)).1 := by
      have hleads := leads_place (hbelow.dir_of_below hdir)
      simpa using copy_below hleads (n := n) here_nil
        (fun target => hlinks.within hbelow _ target) content
    refine hbelow.trans ?_
    dsimp only
    split
    next content _ => exact hcopy content
    next => exact Within.refl _ d'

/-- The file is there afterwards. -/
theorem copyFileDeref_spec {content : C} (hdir : d.tree.kind P = some .dir) (hlinks : NoLinks d)
    (hnone : d.tree.kind (P ++ [n]) = none) (hstat : t.stat root source = some (.file content)) :
    ∃ d', copyFileDeref t root source d (P ++ [n]) = (d', true) ∧ Below (P ++ [n]) d d' ∧
      d'.tree.kind (P ++ [n]) = some (.file content) := by
  have hspec := copy_spec (leads_place hdir) (n := n) (by simpa using hnone) content
  unfold copyFileDeref
  rw [clear_of_none hdir hlinks hnone, hstat]
  simpa using hspec

/-! ### Directories -/

theorem createDirAll_skip (hdir : d.tree.kind P = some .dir) (rest : Place FileName) :
    d.createDirAll [] [] (P ++ rest) = d.createDirAll [] P rest :=
  createDirAll_append [] P (dirs_of_dir hdir) rest

/-- A missing directory is made. -/
theorem createDirAll_new (hdir : d.tree.kind P = some .dir) (hnone : d.tree.kind (P ++ [n]) = none) :
    ∃ d', d.createDirAll [] [] (P ++ [n]) = (d', true) ∧ Within (fun p => p = P ++ [n]) d d' ∧
      d'.tree.kind (P ++ [n]) = some .dir := by
  rw [createDirAll_skip hdir]
  exact createDirAll_missing [] (dirs_of_dir hdir) hnone

/-- The directory is there, or was made, or something else is in the way. -/
theorem createDirAll_place (hdir : d.tree.kind P = some .dir) (hlinks : NoLinks d) :
    (∃ d', d.createDirAll [] [] (P ++ [n]) = (d', true) ∧ Below (P ++ [n]) d d' ∧
        d'.tree.kind (P ++ [n]) = some .dir) ∨
      d.createDirAll [] [] (P ++ [n]) = (d, false) := by
  by_cases hnone : d.tree.kind (P ++ [n]) = none
  · obtain ⟨d', heq, hwithin, hdir'⟩ := createDirAll_new hdir hnone
    refine .inl ⟨d', heq, hwithin.mono ?_, hdir'⟩
    rintro p rfl
    exact List.prefix_refl _
  · by_cases hdir' : d.tree.kind (P ++ [n]) = some .dir
    · refine .inl ⟨d, ?_, Within.refl _ d, hdir'⟩
      simpa [Disk.createDirAll] using createDirAll_skip hdir' []
    · refine .inr ?_
      rw [createDirAll_skip hdir]
      exact createDirAll_blocked (dirs_of_dir hdir) ⟨hdir', hlinks _⟩ hnone

/-- A directory is copied below its target, even if it fails. -/
theorem copyDirDerefInner_below (levels : ℕ) (hdir : d.tree.kind P = some .dir) (hlinks : NoLinks d) :
    Below (P ++ [n]) d (copyDirDerefInner t root levels source d (P ++ [n])).1 := by
  induction levels generalizing source d P n with
  | zero => exact Within.refl _ d
  | succ levels ih =>
    rw [copyDirDerefInner]
    obtain ⟨d', hcreate, hbelow, hdir'⟩ | hfail := createDirAll_place (n := n) hdir hlinks
    · rw [hcreate]
      refine hbelow.trans ?_
      dsimp only
      cases t.readDir root source with
      | none => exact Within.refl _ d'
      | some names =>
        refine eachEntry_below id NoLinks (fun _ _ h h' => h.within h')
          (fun m d hlinks hdir => ?_) (hlinks.within hbelow) hdir'
        dsimp only [id]
        split_ifs
        · exact ih hdir hlinks
        · exact copyFileDeref_below hdir hlinks
    · rw [hfail]
      exact Within.refl _ d

/-- Every name of `q` is listed in the directory before it. -/
def Listed (t : Tree FileName C) (root : Place FileName) (source : List (Step FileName))
    (q : Place FileName) : Prop :=
  ∀ r n, r ++ [n] <+: q → ∃ names, t.readDir root (source ++ r.map Step.down) = some names ∧ n ∈ names

/-- Everything that is listed at and below a path leads to a file, or to a directory less than `levels` deep. -/
def Copyable (t : Tree FileName C) (root : Place FileName) (levels : ℕ) (source : List (Step FileName)) :
    Prop :=
  ∀ q, Listed t root source q →
    (∃ content, t.stat root (source ++ q.map Step.down) = some (.file content)) ∨
      t.stat root (source ++ q.map Step.down) = some .dir ∧ q.length < levels

theorem Listed.cons {names : List FileName} {q : Place FileName} (hnames : t.readDir root source = some names)
    (hn : n ∈ names) (h : Listed t root (source ++ [.down n]) q) : Listed t root source (n :: q) := by
  intro r m hpre
  cases r with
  | nil =>
    obtain ⟨rfl, -⟩ := List.cons_prefix_cons.1 hpre
    exact ⟨names, by simpa using hnames, hn⟩
  | cons c r =>
    obtain ⟨rfl, htail⟩ := List.cons_prefix_cons.1 hpre
    simpa using h r m htail

theorem Copyable.child {names : List FileName} {levels : ℕ} (h : Copyable t root (levels + 1) source)
    (hnames : t.readDir root source = some names) (hn : n ∈ names) :
    Copyable t root levels (source ++ [.down n]) := by
  intro q hq
  have hlisted := h (n :: q) (hq.cons hnames hn)
  simpa using hlisted

/-- Below a file there is nothing. -/
theorem stat_below_file {content content' : C} {q : Place FileName}
    (hfile : t.stat root source = some (.file content))
    (hq : t.stat root (source ++ q.map Step.down) = some (.file content')) : q = [] ∧ content' = content := by
  cases q with
  | nil =>
    rw [List.map_nil, List.append_nil, hfile] at hq
    cases hq
    exact ⟨rfl, rfl⟩
  | cons c q =>
    have hdirectory : t.stat root source = some .dir :=
      stat_of_down (by rw [← List.map_cons, hq]; simp)
    rw [hfile] at hdirectory
    cases hdirectory

/-- A directory whose entries can all be copied is copied with every file that it leads to. -/
theorem copyDirDerefInner_spec {levels : ℕ} (hcopyable : Copyable t root levels source)
    (hstat : t.stat root source = some .dir) (hdir : d.tree.kind P = some .dir) (hlinks : NoLinks d)
    (hnone : d.tree.kind (P ++ [n]) = none) :
    ∃ d', copyDirDerefInner t root levels source d (P ++ [n]) = (d', true) ∧ Below (P ++ [n]) d d' ∧
      ∀ q content, t.stat root (source ++ q.map Step.down) = some (.file content) →
        d'.tree.kind (P ++ n :: q) = some (.file content) := by
  induction levels generalizing source d P n with
  | zero =>
    obtain ⟨content, hfile⟩ | ⟨-, hlevels⟩ := hcopyable [] fun r m hpre => by simp at hpre
    · simp [hstat] at hfile
    · simp at hlevels
  | succ levels ih =>
    obtain ⟨names, hnames, hnodup⟩ := readDir_of_stat hstat
    obtain ⟨d', hcreate, hwithin, hdir'⟩ := createDirAll_new hdir hnone
    have hbelow : Below (P ++ [n]) d d' := by
      refine hwithin.mono ?_
      rintro p rfl
      exact List.prefix_refl _
    have hgone (m : FileName) : d'.tree.kind (P ++ [n] ++ [m]) = none := by
      rw [hwithin.same _ (by simp)]
      exact none_of_prefix_none hnone (List.prefix_append _ _)
    have hone : ∀ m ∈ names, ∀ d : Disk C, NoLinks d → d.tree.kind (P ++ [n]) = some .dir →
        d.tree.kind (P ++ [n] ++ [m]) = none →
        ∃ d', (if t.stat root (source ++ [.down m]) = some .dir then
            copyDirDerefInner t root levels (source ++ [.down m]) d (P ++ [n] ++ [m])
          else copyFileDeref t root (source ++ [.down m]) d (P ++ [n] ++ [m])) = (d', true) ∧
          Below (P ++ [n] ++ [m]) d d' ∧
          ∀ q content, t.stat root (source ++ [.down m] ++ q.map Step.down) = some (.file content) →
            d'.tree.kind (P ++ [n] ++ m :: q) = some (.file content) := by
      intro m hm d hlinks hdir hnone
      have hchild := hcopyable.child hnames hm
      split_ifs with hsub
      · have hcopied := ih hchild hsub hdir hlinks hnone
        exact hcopied
      · obtain ⟨content, hfile⟩ | ⟨hdirectory, -⟩ := hchild [] fun r m hpre => by simp at hpre
        · rw [List.map_nil, List.append_nil] at hfile
          obtain ⟨d', hcopy, hbelow, hkind⟩ := copyFileDeref_spec hdir hlinks hnone hfile
          have hbelow_file : ∀ q content', t.stat root (source ++ [.down m] ++ q.map Step.down) =
              some (.file content') → d'.tree.kind (P ++ [n] ++ m :: q) = some (.file content') := by
            intro q content' hq
            obtain ⟨rfl, rfl⟩ := stat_below_file hfile hq
            exact hkind
          exact ⟨d', hcopy, hbelow, hbelow_file⟩
        · rw [List.map_nil, List.append_nil] at hdirectory
          exact absurd hdirectory hsub
    obtain ⟨d'', hloop, hwithin', hwanted⟩ := eachEntry_spec id NoLinks (fun _ _ h h' => NoLinks.within h h')
      hone (by simpa using hnodup) (hlinks.within hbelow) hdir' fun m _ => hgone m
    have hrun : copyDirDerefInner t root (levels + 1) source d (P ++ [n]) = (d'', true) := by
      rw [copyDirDerefInner, hcreate, hnames]
      exact hloop
    have hrest : Below (P ++ [n]) d' d'' := by
      refine hwithin'.mono ?_
      rintro p ⟨m, -, hp⟩
      exact (List.prefix_append _ _).trans hp
    refine ⟨d'', hrun, hbelow.trans hrest, fun q content hq => ?_⟩
    · cases q with
      | nil =>
        rw [List.map_nil, List.append_nil, hstat] at hq
        cases hq
      | cons m q =>
        have hm : m ∈ names := mem_readDir hnames (by rw [← List.map_cons, hq]; simp)
        have hkind := hwanted m hm q content (by simpa using hq)
        simpa using hkind

/-! ### One path -/

/-- The places of the settings in the new directory. -/
def Staged (p : Place FileName) : Prop := ∃ names, Allowlisted names ∧ p = filesName :: names

theorem prefixFree_allowlisted : PrefixFree Allowlisted := by
  intro p p' hp hp' hpre
  obtain ⟨rel, hrel, rfl⟩ := hp.exists_exported
  obtain ⟨rel', hrel', rfl⟩ := hp'.exists_exported
  rw [hrel.eq_of_prefix hrel' hpre]

theorem prefixFree_staged : PrefixFree Staged := by
  rintro p p' ⟨names, hnames, rfl⟩ ⟨names', hnames', rfl⟩ hpre
  rw [prefixFree_allowlisted names names' hnames hnames' (List.cons_prefix_cons.1 hpre).2]

section CopyIntoPayload

variable {rel : String}

/-- The way to a place is made free. -/
theorem createDirAll_parents (hready : Ready Staged [] d) {p : Place FileName} (hp : Staged p) :
    ∃ d', d.createDirAll [] [] p.dropLast = (d', true) ∧
      Within (fun x => ∃ q, q <+: p.dropLast ∧ q ≠ [] ∧ x = [] ++ ([] ++ q)) d d' ∧
      ∀ q, q <+: [] ++ p.dropLast → d'.tree.kind ([] ++ q) = some .dir := by
  have hne : p ≠ [] := by
    obtain ⟨names, -, rfl⟩ := hp
    simp
  refine createDirAll_spec (fun q hq => ?_) fun q hq _ => ?_
  · rw [List.prefix_nil.1 hq]
    exact kind_root d.tree
  · refine hready p hp q (hq.trans (List.dropLast_prefix _)) ?_
    rintro rfl
    have hle := hq.length_le
    have hpos := List.length_pos_iff.2 hne
    rw [List.length_dropLast] at hle
    omega

theorem target_eq_concat (rel : String) : ∃ P n, filesName :: placeOf rel = P ++ [n] := by
  obtain hnil | ⟨P, n, heq⟩ := List.eq_nil_or_concat' (filesName :: placeOf rel)
  · cases hnil
  · exact ⟨P, n, heq⟩

/-- The way to a path is made and the path is written, even if it fails. -/
theorem copyIntoPayload_touched (hrel : Exported rel) (hready : Ready Staged [] d) (hlinks : NoLinks d) :
    Touched [] (filesName :: placeOf rel) d (copyIntoPayload t root d rel).1 := by
  unfold copyIntoPayload
  dsimp only
  by_cases hmissing : t.lstat root (stepsOf rel) = none
  · rw [if_pos hmissing]
    exact Touched.refl _ _ d
  · obtain ⟨d', hcreate, hparents, hdirs⟩ := createDirAll_parents hready ⟨_, hrel.allowlisted, rfl⟩
    rw [if_neg hmissing, hcreate]
    refine Touched.of_below (by simp) hparents hdirs ?_
    obtain ⟨P, n, htarget⟩ := target_eq_concat rel
    rw [htarget, List.dropLast_concat] at hdirs
    have hlinks' := hlinks.within hparents
    rw [htarget]
    dsimp only
    split_ifs
    · exact copyDirDerefInner_below _ (hdirs P (List.prefix_refl _)) hlinks'
    · exact copyFileDeref_below (hdirs P (List.prefix_refl _)) hlinks'

/-- A path that can be copied is copied with every file that it leads to. -/
theorem copyIntoPayload_spec (hrel : Exported rel) (hready : Ready Staged [] d) (hlinks : NoLinks d)
    (hnone : d.tree.kind (filesName :: placeOf rel) = none) (hthere : t.stat root (stepsOf rel) ≠ none)
    (hcopyable : Copyable t root (maxDepth + 1) (stepsOf rel)) :
    ∃ d', copyIntoPayload t root d rel = (d', true) ∧
      ∀ q content, t.stat root (stepsOf rel ++ q.map Step.down) = some (.file content) →
        d'.tree.kind (filesName :: placeOf rel ++ q) = some (.file content) := by
  obtain ⟨d', hcreate, hparents, hdirs⟩ := createDirAll_parents hready ⟨_, hrel.allowlisted, rfl⟩
  obtain ⟨P, n, htarget⟩ := target_eq_concat rel
  have hlinks' := hlinks.within hparents
  have hdir : d'.tree.kind P = some .dir := by
    rw [htarget, List.dropLast_concat] at hdirs
    exact hdirs P (List.prefix_refl _)
  have hnone' : d'.tree.kind (P ++ [n]) = none := by
    rw [hparents.same, ← htarget, hnone]
    rintro ⟨q, hq, -, heq⟩
    rw [htarget, List.dropLast_concat] at hq
    have hle := hq.length_le
    have hlen := congrArg List.length heq
    simp only [List.nil_append, List.length_append, List.length_singleton] at hlen
    omega
  unfold copyIntoPayload
  dsimp only
  rw [if_neg (lstat_ne_none hthere), hcreate, htarget]
  dsimp only
  split_ifs with hsub
  · obtain ⟨d'', hcopy, -, hwanted⟩ := copyDirDerefInner_spec hcopyable hsub hdir hlinks' hnone'
    refine ⟨d'', hcopy, fun q content hq => ?_⟩
    simpa using hwanted q content hq
  · obtain ⟨content, hfile⟩ | ⟨hdirectory, -⟩ := hcopyable [] fun r m hpre => by simp at hpre
    · rw [List.map_nil, List.append_nil] at hfile
      obtain ⟨d'', hcopy, -, hkind⟩ := copyFileDeref_spec hdir hlinks' hnone' hfile
      refine ⟨d'', hcopy, fun q content' hq => ?_⟩
      obtain ⟨rfl, rfl⟩ := stat_below_file hfile hq
      rwa [List.append_nil]
    · rw [List.map_nil, List.append_nil] at hdirectory
      exact absurd hdirectory hsub

end CopyIntoPayload

end Kyth.Transfer
