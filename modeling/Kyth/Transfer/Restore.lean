import Kyth.Transfer.Disk

/-!
# Restoring a setup archive (`setup_transfer.rs`)

`restore_files` copies the paths of a manifest from the extracted payload into the home directory. It checks
that no parent of a path is a link, replaces a link at the path itself, and merges directories.

`restore_confined` says that every write stays at the place its path spells, on the allowlist or on the way to
it.
-/

namespace Kyth.Transfer

open FileTree FileTree.Tree Json Str

/-- An entry of an extracted payload, which has no links; a directory lists its entries in the order in which
they are read. -/
inductive Payload (C : Type)
  | file (content : C)
  | special
  | dir (entries : List (FileName × Payload C))

variable {C : Type}

/-- `copy_dir_recursive` with `merge`, where `loop` copies the entries. -/
def Disk.copyDirRecursive (d : Disk C) (loop : Disk C → Disk C × Bool) (root : Place FileName)
    (steps : List (Step FileName)) : Disk C × Bool :=
  match d.removeLink root steps with
  | none => (d, false)
  | some d' =>
      if (d'.tree.stat root steps).isSome then loop d'
      else
        match d'.createDirAll root [] (spelled steps) with
        | (d'', true) => loop d''
        | (d'', false) => (d'', false)

mutual

/-- One entry of `copy_dir_recursive`, or of the manifest. -/
def copyNode : Payload C → Disk C → Place FileName → List (Step FileName) → Disk C × Bool
  | .dir entries, d, root, steps =>
      d.copyDirRecursive (fun d' => copyEntries entries d' root steps) root steps
  | .file content, d, root, steps => d.copyFileNofollow (some content) root steps
  | .special, d, root, steps => d.copyFileNofollow none root steps

/-- The loop of `copy_dir_recursive` over the entries; the first error ends it. -/
def copyEntries : List (FileName × Payload C) → Disk C → Place FileName → List (Step FileName) →
    Disk C × Bool
  | [], d, _, _ => (d, true)
  | (n, node) :: entries, d, root, steps =>
      match copyNode node d root (steps ++ [.down n]) with
      | (d', true) => copyEntries entries d' root steps
      | (d', false) => (d', false)

end

/-- The entry at a place of the payload. -/
def Payload.get : Payload C → Place FileName → Option (Payload C)
  | node, [] => some node
  | .dir entries, n :: names => (entries.lookup n).bind fun node => node.get names
  | .file _, _ :: _ | .special, _ :: _ => none

/-- `safe_directory_chain` in the payload: the root and the parents are directories, as far as they exist. -/
def Payload.chain : Payload C → Place FileName → Bool
  | .dir _, [] => true
  | .dir entries, n :: names =>
      match entries.lookup n with
      | none => true
      | some node => node.chain names
  | .file _, _ | .special, _ => false

/-- The entry of the payload that a path of the manifest leads to. -/
def Payload.source (files : Payload C) (path : String) : Option (Payload C) :=
  match files.get (placeOf path) with
  | some (.dir entries) => some (.dir entries)
  | some other => if EndsOpen path then none else some other
  | none => none

/-- `safe_directory_chain` in the home directory. -/
def safeDirectoryChain (t : Tree FileName C) (root names : Place FileName) : Bool :=
  decide (t.kind root = some .dir) && (t.obstacle root [] names).isNone

/-- One round of the loop of `restore_files`; `home` is the answer of `canonicalize`. -/
def restorePath (files : Payload C) (home : Option (Place FileName)) (d : Disk C) (path : String) :
    Disk C × Bool :=
  if !isAllowedRestorePath path || !files.chain (placeOf path).dropLast then (d, false)
  else
    match home with
    | none => (d, false)
    | some root =>
        if !safeDirectoryChain d.tree root (placeOf path).dropLast then (d, false)
        else
          match files.source path with
          | none => (d, false)
          | some node =>
              match d.createDirAll root [] (placeOf path).dropLast with
              | (d', true) => copyNode node d' root (stepsOf path)
              | (d', false) => (d', false)

/-- `restore_files`, with the number of restored paths. -/
def restoreFiles (files : Payload C) (home : Option (Place FileName)) (d : Disk C)
    (paths : List String) : Disk C × ℕ :=
  paths.foldl (fun state path =>
    match restorePath files home state.1 path with
    | (d', ok) => (d', state.2 + if ok then 1 else 0)) (d, 0)

variable {d d' d'' : Disk C} {root : Place FileName} {n : FileName}
  {steps tail rest : List (Step FileName)}

/-! ### Entries of the payload -/

/-- Behind something that is no directory nothing is written. -/
theorem removeLink_blocked (h : Leads d.tree root steps)
    (hblocked : Blocked d.tree (root ++ spelled steps ++ [n])) (hrest : rest ≠ []) :
    d.removeLink root (steps ++ .down n :: rest) = some d := by
  unfold Disk.removeLink
  rw [lstat, h.walk, walk_blocked hblocked hrest]
  rfl

theorem copyNode_blocked (h : Leads d.tree root steps)
    (hblocked : Blocked d.tree (root ++ spelled steps ++ [n]))
    (hkind : d.tree.kind (root ++ spelled steps ++ [n]) ≠ none) (hrest : rest ≠ []) (node : Payload C) :
    copyNode node d root (steps ++ .down n :: rest) = (d, false) := by
  cases node with
  | file content =>
    rw [copyNode, Disk.copyFileNofollow, removeLink_blocked h hblocked hrest]
    show d.copy content root (steps ++ .down n :: rest) = (d, false)
    rw [Disk.copy, h.walk, walk_blocked hblocked hrest]
  | special => rw [copyNode, Disk.copyFileNofollow, removeLink_blocked h hblocked hrest]
  | dir entries =>
    rw [copyNode, Disk.copyDirRecursive, removeLink_blocked h hblocked hrest]
    have hstat : d.tree.stat root (steps ++ .down n :: rest) = none := by
      rw [stat, h.walk, walk_blocked hblocked hrest]
      rfl
    have hspelled : spelled (steps ++ .down n :: rest) = spelled steps ++ n :: spelled rest := by
      rw [spelled_append]
      rfl
    have hcreate : d.createDirAll root [] (spelled (steps ++ .down n :: rest)) = (d, false) := by
      rw [hspelled, createDirAll_append [] (spelled steps) h.dirs]
      exact createDirAll_blocked h.dirs hblocked hkind
    simp only [hstat, Option.isSome_none, Bool.false_eq_true, if_false, hcreate]

theorem copyEntries_blocked (h : Leads d.tree root steps)
    (hblocked : Blocked d.tree (root ++ spelled steps ++ [n]))
    (hkind : d.tree.kind (root ++ spelled steps ++ [n]) ≠ none) (entries : List (FileName × Payload C)) :
    (copyEntries entries d root (steps ++ .down n :: tail)).1 = d := by
  cases entries with
  | nil => rfl
  | cons entry entries =>
    obtain ⟨m, node⟩ := entry
    rw [copyEntries, List.append_assoc, List.cons_append,
      copyNode_blocked h hblocked hkind (by simp) node]

/-- A directory is made or merged, and its entries are written below it. -/
theorem copyDirRecursive_below {entries : List (FileName × Payload C)} (h : Leads d.tree root steps)
    (htail : ∀ step ∈ tail, step = .here)
    (hlink : ∀ target, d.tree.kind (root ++ spelled steps ++ [n]) ≠ some (.link target))
    (hloop : ∀ d' : Disk C, Leads d'.tree root (steps ++ .down n :: tail) →
      Below (root ++ spelled steps ++ [n]) d' (copyEntries entries d' root (steps ++ .down n :: tail)).1) :
    Below (root ++ spelled steps ++ [n]) d
      (if (d.tree.stat root (steps ++ .down n :: tail)).isSome then
        copyEntries entries d root (steps ++ .down n :: tail)
      else
        match d.createDirAll root [] (spelled (steps ++ .down n :: tail)) with
        | (d', true) => copyEntries entries d' root (steps ++ .down n :: tail)
        | (d', false) => (d', false)).1 := by
  have hspelled : spelled (steps ++ .down n :: tail) = spelled steps ++ [n] := by
    rw [spelled_append, spelled_down htail]
  have hcreate : d.createDirAll root [] (spelled (steps ++ .down n :: tail)) =
      d.createDirAll root (spelled steps) [n] := by
    rw [hspelled, createDirAll_append [] (spelled steps) h.dirs]
    rfl
  by_cases hdir : d.tree.kind (root ++ spelled steps ++ [n]) = some .dir
  · have hstat : d.tree.stat root (steps ++ .down n :: tail) = some .dir := by
      rw [stat, h.walk_down htail hlink, if_pos (.inr hdir), Option.bind_some, hdir]
    rw [hstat, Option.isSome_some, if_pos rfl]
    exact hloop d (h.concat htail hdir)
  · by_cases hnone : d.tree.kind (root ++ spelled steps ++ [n]) = none
    · have hstat : d.tree.stat root (steps ++ .down n :: tail) = none := by
        rw [stat, h.walk_down htail hlink]
        split_ifs
        · rw [Option.bind_some, hnone]
        · rfl
      obtain ⟨d', heq, hwithin, hdir'⟩ := createDirAll_missing [] h.dirs hnone
      have hbelow : Below (root ++ spelled steps ++ [n]) d d' := by
        refine hwithin.mono ?_
        rintro p rfl
        exact List.prefix_refl _
      rw [hstat, hcreate, heq]
      exact hbelow.trans (hloop d' ((h.of_below hbelow).concat htail hdir'))
    · -- a file is in the way
      have hblocked : Blocked d.tree (root ++ spelled steps ++ [n]) := ⟨hdir, hlink⟩
      split_ifs with hsome
      · rw [copyEntries_blocked h hblocked hnone]
        exact Within.refl _ d
      · rw [hcreate, createDirAll_blocked h.dirs hblocked hnone]
        exact Within.refl _ d

mutual

/-- An entry is written below the place that its path spells. -/
theorem copyNode_below (node : Payload C) {d : Disk C} {steps tail : List (Step FileName)} {n : FileName}
    (h : Leads d.tree root steps) (htail : ∀ step ∈ tail, step = .here)
    (hopen : tail ≠ [] → ∀ target, d.tree.kind (root ++ spelled steps ++ [n]) ≠ some (.link target)) :
    Below (root ++ spelled steps ++ [n]) d (copyNode node d root (steps ++ .down n :: tail)).1 := by
  obtain ⟨d', hremove, hbelow, hlink⟩ := removeLink_below h htail hopen
  have hleads := h.of_below hbelow
  cases node with
  | special =>
    rw [copyNode, Disk.copyFileNofollow, hremove]
    exact hbelow
  | file content =>
    rw [copyNode, Disk.copyFileNofollow, hremove]
    exact hbelow.trans (copy_below hleads htail hlink content)
  | dir entries =>
    rw [copyNode, Disk.copyDirRecursive, hremove]
    refine hbelow.trans (copyDirRecursive_below hleads htail hlink fun d'' h'' => ?_)
    have hentries := copyEntries_below entries h''
    rwa [spelled_concat_down htail] at hentries

theorem copyEntries_below (entries : List (FileName × Payload C)) {d : Disk C}
    {steps : List (Step FileName)} (h : Leads d.tree root steps) :
    Below (root ++ spelled steps) d (copyEntries entries d root steps).1 := by
  cases entries with
  | nil =>
    rw [copyEntries]
    exact Within.refl _ d
  | cons entry entries =>
    obtain ⟨m, node⟩ := entry
    have hbelow := copyNode_below (n := m) node h here_nil (by simp)
    have hmono := hbelow.mono (B := fun p => root ++ spelled steps <+: p) fun p hp =>
      (List.prefix_append _ _).trans hp
    rw [copyEntries]
    cases hnode : copyNode node d root (steps ++ [.down m]) with
    | mk d' ok =>
      rw [hnode] at hbelow hmono
      cases ok with
      | false => exact hmono
      | true => exact hmono.trans (copyEntries_below entries (h.of_below hbelow))

end

/-! ### One path -/

/-- The last name of a path and what stands behind it. -/
theorem exists_last_down {steps : List (Step FileName)} (hup : .up ∉ steps) (hne : spelled steps ≠ []) :
    ∃ init n tail, steps = init ++ .down n :: tail ∧ ∀ step ∈ tail, step = .here := by
  induction steps using List.reverseRecOn with
  | nil => exact absurd rfl hne
  | append_singleton steps step ih =>
    rw [List.mem_append, not_or, List.mem_singleton] at hup
    cases step with
    | up => exact absurd rfl hup.2
    | down n => exact ⟨steps, n, [], rfl, by simp⟩
    | here =>
      have hspelled : spelled (steps ++ [.here]) = spelled steps := by
        rw [spelled_append]
        exact List.append_nil _
      rw [hspelled] at hne
      obtain ⟨init, n, tail, rfl, htail⟩ := ih hup.1 hne
      refine ⟨init, n, tail ++ [.here], by simp, fun step hstep => ?_⟩
      obtain hstep | hstep := List.mem_append.1 hstep
      · exact htail step hstep
      · exact List.mem_singleton.1 hstep

/-- What stands behind the last name makes the path end open. -/
theorem endsOpen_of_tail {path : String} {init : List (Step FileName)}
    (hsteps : stepsOf path = init ++ .down n :: tail) (htail : ∀ step ∈ tail, step = .here)
    (hne : tail ≠ []) : EndsOpen path := by
  unfold EndsOpen
  rw [hsteps, List.append_cons, List.getLast?_append_of_ne_nil _ hne, List.getLast?_eq_getLast_of_ne_nil hne]
  exact congrArg some (htail _ (List.getLast_mem hne))

theorem Allowlisted.ne_nil {p : Place FileName} (h : Allowlisted p) : p ≠ [] := by
  have hconfig : ∀ path ∈ configPaths, placeOf path ≠ [] := by decide
  obtain ⟨path, hpath, rfl⟩ | ⟨name, -, -, rfl⟩ := h
  · exact hconfig path hpath
  · simp

/-- The directories on the way to the path are made and the path is written, if it is allowed. -/
theorem restorePath_touched (files : Payload C) {path : String}
    (hopen : EndsOpen path → ∀ target, d.tree.kind (root ++ placeOf path) ≠ some (.link target)) :
    (restorePath files (some root) d path).1 = d ∨ isAllowedRestorePath path = true ∧
      Touched root (placeOf path) d (restorePath files (some root) d path).1 := by
  unfold restorePath
  dsimp only
  split_ifs with hrefused hchain
  · exact .inl rfl
  · exact .inl rfl
  · rw [Bool.or_eq_true, not_or, Bool.not_eq_true', Bool.not_eq_false] at hrefused
    obtain ⟨hup, hallow⟩ := isAllowedRestorePath_spelled hrefused.1
    rw [Bool.not_eq_true', Bool.not_eq_false, safeDirectoryChain, Bool.and_eq_true, decide_eq_true_eq,
      Option.isNone_iff_eq_none] at hchain
    cases files.source path with
    | none => exact .inl rfl
    | some node =>
      refine .inr ⟨hrefused.1, ?_⟩
      have hroot : ∀ q, q <+: ([] : Place FileName) → d.tree.kind (root ++ q) = some .dir := by
        intro q hq
        rw [List.prefix_nil.1 hq, List.append_nil]
        exact hchain.1
      obtain ⟨d', hcreate, hparents, hdirs⟩ :=
        createDirAll_spec hroot ((obstacle_eq_none hroot).1 hchain.2)
      obtain ⟨init, n, tail, hsteps, htail⟩ := exists_last_down hup hallow.ne_nil
      have hplace : placeOf path = spelled init ++ [n] := by
        rw [placeOf, hsteps, spelled_append, spelled_down htail]
      have hinit : (placeOf path).dropLast = spelled init := by rw [hplace, List.dropLast_concat]
      have hleads : Leads d'.tree root init := by
        refine ⟨fun hmem => hup ?_, fun q hq => hdirs q ?_⟩
        · rw [hsteps]
          exact List.mem_append_left _ hmem
        · rwa [hinit]
      have hcopy := copyNode_below (n := n) node hleads htail fun hne target hlink => by
        refine hopen (endsOpen_of_tail hsteps htail hne) target ?_
        rw [hplace, ← List.append_assoc]
        exact hparents.links hlink
      rw [List.append_assoc, ← hplace, ← hsteps] at hcopy
      simp only [hcreate]
      exact Touched.of_below hallow.ne_nil hparents hdirs hcopy

/-! ### Every path of the manifest -/

variable {home : Option (Place FileName)}

/-- The places below which a restore may write, and the directories on the way to them. -/
def Confined (home : Option (Place FileName)) (p : Place FileName) : Prop :=
  ∃ root ∈ home, ∃ names, Allowlisted names ∧
    (root ++ names <+: p ∨ ∃ q, q <+: names ∧ q ≠ [] ∧ p = root ++ q)

theorem restorePath_within (files : Payload C) (home : Option (Place FileName)) {path : String}
    (hopen : EndsOpen path → ∀ root ∈ home, ∀ target,
      d.tree.kind (root ++ placeOf path) ≠ some (.link target)) :
    Within (Confined home) d (restorePath files home d path).1 := by
  cases home with
  | none =>
    unfold restorePath
    split_ifs
    · exact Within.refl _ d
    · exact Within.refl _ d
  | some root =>
    obtain hsame | ⟨hallowed, htouched⟩ := restorePath_touched files fun hends => hopen hends root rfl
    · rw [hsame]
      exact Within.refl _ d
    · refine htouched.within.mono fun p hp => ?_
      refine ⟨root, rfl, placeOf path, (isAllowedRestorePath_spelled hallowed).2, ?_⟩
      obtain ⟨q, hq, hnil, rfl⟩ | hp := hp
      · exact .inr ⟨q, hq.trans (List.dropLast_prefix _), hnil, rfl⟩
      · exact .inl hp

/-- No link is new, so a path that led to no link before the restore does not lead to one later. -/
theorem restoreFiles_within (files : Payload C) (paths : List String) (count : ℕ)
    (hopen : ∀ path ∈ paths, EndsOpen path → ∀ root ∈ home, ∀ target,
      d.tree.kind (root ++ placeOf path) ≠ some (.link target)) :
    Within (Confined home) d (paths.foldl (fun state path =>
      match restorePath files home state.1 path with
      | (d', ok) => (d', state.2 + if ok then 1 else 0)) (d, count)).1 := by
  induction paths generalizing d count with
  | nil => exact Within.refl _ d
  | cons path paths ih =>
    have hpath := restorePath_within files home (hopen path (by simp))
    rw [List.foldl_cons]
    refine hpath.trans (ih _ fun path' hmem hends root hroot target hlink => ?_)
    exact hopen path' (by simp [hmem]) hends root hroot target (hpath.links hlink)

/-- Whatever is written is written at the place that its path spells, without a link on the way, and lies at
or below an allowlisted path of the home directory or is a directory on the way to one. It is asked that a
path which ends in a slash or a dot does not lead to a link. Nothing else appears or changes. -/
theorem restore_confined (files : Payload C) (home : Option (Place FileName)) (t : Tree FileName C)
    (paths : List String)
    (hopen : ∀ path ∈ paths, EndsOpen path → ∀ root ∈ home, ∀ target,
      t.kind (root ++ placeOf path) ≠ some (.link target)) :
    (∀ w ∈ (restoreFiles files home { tree := t } paths).1.written,
      w.place = w.spelled ∧ Confined home w.place) ∧
    ∀ p k, (restoreFiles files home { tree := t } paths).1.tree.kind p = some k →
      t.kind p = some k ∨
        ∃ w ∈ (restoreFiles files home { tree := t } paths).1.written, w.place = p := by
  have hwithin := restoreFiles_within (d := { tree := t }) files paths 0 hopen
  refine ⟨fun w hw => ?_, hwithin.logged⟩
  obtain ⟨new, hwritten, hnew⟩ := hwithin.writes
  exact hnew w (by simpa [restoreFiles, hwritten] using hw)

/-- A payload with two settings. -/
def samplePayload : Payload String :=
  .dir [(nameOf ".config", .dir [(nameOf "kdeglobals", .file "theme")]),
    (nameOf ".local", .dir [(nameOf "share", .dir [(nameOf "applications",
      .dir [(nameOf "kyth-store.desktop", .dir [])])])])]

/-- A home directory in which a setting is a link to a file outside. -/
def linkedHome : Tree FileName String :=
  ((((Tree.empty.mkdir [nameOf "home"]).mkdir [nameOf "home", nameOf ".config"]).write [nameOf "passwd"]
    (.file "root")).write [nameOf "home", nameOf ".config", nameOf "kdeglobals"]
      (.link ⟨true, [.down (nameOf "passwd")]⟩))

theorem restore_confined_linkedHome :
    (∀ w ∈ (restoreFiles samplePayload (some [nameOf "home"]) { tree := linkedHome }
        [".config/kdeglobals", ".local/share//applications/kyth-store.desktop/."]).1.written,
      w.place = w.spelled ∧ Confined (some [nameOf "home"]) w.place) ∧
    ∀ p k, (restoreFiles samplePayload (some [nameOf "home"]) { tree := linkedHome }
        [".config/kdeglobals", ".local/share//applications/kyth-store.desktop/."]).1.tree.kind p = some k →
      linkedHome.kind p = some k ∨
        ∃ w ∈ (restoreFiles samplePayload (some [nameOf "home"]) { tree := linkedHome }
          [".config/kdeglobals", ".local/share//applications/kyth-store.desktop/."]).1.written, w.place = p :=
  restore_confined samplePayload (some [nameOf "home"]) linkedHome
    [".config/kdeglobals", ".local/share//applications/kyth-store.desktop/."] (by
      intro path hpath hends root hroot target
      obtain rfl := Option.mem_some_iff.1 hroot
      simp only [List.mem_cons, List.not_mem_nil, or_false] at hpath
      obtain rfl | rfl := hpath
      · exact absurd hends (by decide)
      · have hnone : linkedHome.kind ([nameOf "home"] ++
            placeOf ".local/share//applications/kyth-store.desktop/.") = none := by decide +kernel
        rw [hnone]
        simp)

/-- A manifest with one path. -/
def sampleManifest : Value :=
  .object [("format", .string "KythOS setup transfer"), ("version", Value.nat 1),
    ("copied_paths", .array [.string ".config/kdeglobals"])]

/-- In a home directory without `.config` this directory is made, which is on the way to an allowlisted path
and not below one. -/
theorem restore_makes_parent :
    (validateManifest (fun _ => "") sampleManifest).toOption.map SetupManifest.copiedPaths =
        some [".config/kdeglobals"] ∧
      (⟨[nameOf ".config"], [nameOf ".config"]⟩ : Write) ∈
        (restoreFiles samplePayload (some []) { tree := Tree.empty } [".config/kdeglobals"]).1.written ∧
      ¬ ∃ names, Allowlisted names ∧ [] ++ names <+: [nameOf ".config"] := by
  have hconfig : ∀ path ∈ configPaths, 2 ≤ (placeOf path).length := by decide
  refine ⟨by decide, by decide +kernel, ?_⟩
  rintro ⟨names, hallow, hpre⟩
  have hle := hpre.length_le
  rw [List.nil_append, List.length_singleton] at hle
  obtain ⟨path, hpath, rfl⟩ | ⟨name, -, -, rfl⟩ := hallow
  · have hge := hconfig path hpath
    omega
  · simp at hle

end Kyth.Transfer
