import Kyth.Transfer.Paths

/-!
# Writing into a home directory (`setup_transfer.rs`)

The system calls with which files and directories are copied, on a file tree with a record of every place that
is written and the path that led there. `Within` says where changes were made, `Leads` that a path stays in
directories; `createDirAll_spec`, `removeLink_below` and `copy_below` are the calls in these terms.
-/

namespace Kyth.Transfer

open FileTree FileTree.Tree Json Str

/-- A place that was created or overwritten, with the place that the path in the call spells. -/
structure Write where
  spelled : Place FileName
  place : Place FileName
  deriving DecidableEq

/-- The file system with a record of what was written. -/
structure Disk (C : Type) where
  tree : Tree FileName C
  written : List Write := []

variable {C : Type}

namespace Disk

/-- Record a write through a path that starts at `root`. -/
def note (d : Disk C) (root : Place FileName) (steps : List (Step FileName)) (place : Place FileName) :
    Disk C :=
  { d with written := d.written ++ [⟨root ++ spelled steps, place⟩] }

/-- `if symlink_metadata(target) is a link { remove_file(target)? }`. -/
def removeLink (d : Disk C) (root : Place FileName) (steps : List (Step FileName)) : Option (Disk C) :=
  if (d.tree.lstat root steps).any Kind.isLink then
    (d.tree.removeFile root steps).map fun tree => { d with tree }
  else some d

/-- `fs::copy` of a regular file: the target is opened for writing, through a link if it is one. -/
def copy (d : Disk C) (content : C) (root : Place FileName) (steps : List (Step FileName)) :
    Disk C × Bool :=
  match d.tree.walk true maxLinks root steps with
  | none => (d, false)
  | some place =>
      match d.tree.kind place with
      | some .dir | some (.link _) => (d, false)
      | some .special => (d.note root steps place, true)
      | some (.file _) | none =>
          ({ d with tree := d.tree.write place (.file content) }.note root steps place, true)

/-- `copy_file_nofollow`; a source that is no regular file cannot be copied. -/
def copyFileNofollow (d : Disk C) (source : Option C) (root : Place FileName)
    (steps : List (Step FileName)) : Disk C × Bool :=
  match d.removeLink root steps with
  | none => (d, false)
  | some d' =>
      match source with
      | none => (d', false)
      | some content => d'.copy content root steps

/-- `create_dir_all`: the names after `done` that are missing are made one after the other. -/
def createDirAll (d : Disk C) (root : Place FileName) :
    Place FileName → Place FileName → Disk C × Bool
  | _, [] => (d, true)
  | done, n :: names =>
      let steps := (done ++ [n]).map Step.down
      match d.tree.stat root steps with
      | some .dir => createDirAll d root (done ++ [n]) names
      | some _ => (d, false)
      | none =>
          match d.tree.walk false maxLinks root steps with
          | none => (d, false)
          | some place =>
              -- a link that leads nowhere is in the way
              if d.tree.kind place ≠ none then (d, false)
              else
                createDirAll ({ d with tree := d.tree.mkdir place }.note root steps place) root
                  (done ++ [n]) names

end Disk

/-! ### Changes at some places -/

variable {d d' d'' : Disk C} {root L : Place FileName} {n : FileName} {A B : Place FileName → Prop}
  {steps tail rest : List (Step FileName)}

/-- Only places in `A` were written, each through a path that spells it, and what is new is a file or a
directory. -/
structure Within (A : Place FileName → Prop) (d d' : Disk C) : Prop where
  writes : ∃ new, d'.written = d.written ++ new ∧ ∀ w ∈ new, w.place = w.spelled ∧ A w.place
  same : ∀ p, ¬ A p → d'.tree.kind p = d.tree.kind p
  plain : ∀ p k, d'.tree.kind p = some k →
    d.tree.kind p = some k ∨ k = .dir ∨ ∃ content, k = .file content
  logged : ∀ p k, d'.tree.kind p = some k → d.tree.kind p = some k ∨ ∃ w ∈ d'.written, w.place = p

namespace Within

theorem refl (A : Place FileName → Prop) (d : Disk C) : Within A d d where
  writes := ⟨[], by simp, by simp⟩
  same := fun _ _ => rfl
  plain := fun _ _ h => .inl h
  logged := fun _ _ h => .inl h

theorem trans (h : Within A d d') (h' : Within A d' d'') : Within A d d'' where
  writes := by
    obtain ⟨new, hwritten, hnew⟩ := h.writes
    obtain ⟨new', hwritten', hnew'⟩ := h'.writes
    refine ⟨new ++ new', by rw [hwritten', hwritten, List.append_assoc], fun w hw => ?_⟩
    obtain hw | hw := List.mem_append.1 hw
    · exact hnew w hw
    · exact hnew' w hw
  same := fun p hp => (h'.same p hp).trans (h.same p hp)
  plain := by
    intro p k hk
    obtain hk | hnew := h'.plain p k hk
    · exact h.plain p k hk
    · exact .inr hnew
  logged := by
    intro p k hk
    obtain hk | hlogged := h'.logged p k hk
    · obtain hk | ⟨w, hw, hp⟩ := h.logged p k hk
      · exact .inl hk
      · obtain ⟨new', hwritten', -⟩ := h'.writes
        exact .inr ⟨w, by rw [hwritten']; exact List.mem_append_left _ hw, hp⟩
    · exact .inr hlogged

theorem mono (h : Within A d d') (hsub : ∀ p, A p → B p) : Within B d d' where
  writes := by
    obtain ⟨new, hwritten, hnew⟩ := h.writes
    exact ⟨new, hwritten, fun w hw => ⟨(hnew w hw).1, hsub _ (hnew w hw).2⟩⟩
  same := fun p hp => h.same p fun hp' => hp (hsub p hp')
  plain := h.plain
  logged := h.logged

/-- No link is new. -/
theorem links (h : Within A d d') {p : Place FileName} {target : Target FileName}
    (hp : d'.tree.kind p = some (.link target)) : d.tree.kind p = some (.link target) := by
  obtain hp | hdir | ⟨content, hfile⟩ := h.plain p _ hp
  · exact hp
  · cases hdir
  · cases hfile

/-- An entry is taken away, with what is below it. -/
theorem remove {place : Place FileName} (hne : place ≠ []) (hA : ∀ p, place <+: p → A p) :
    Within A d { d with tree := d.tree.remove place } where
  writes := ⟨[], by simp, by simp⟩
  same := fun p hp => by
    rw [kind_remove hne, if_neg fun hpre => hp (hA p hpre)]
  plain := fun p k hk => .inl (remove_sub hne p k hk)
  logged := fun p k hk => .inl (remove_sub hne p k hk)

/-- One file or directory is written. -/
theorem put {place : Place FileName} {k : Kind FileName C} (hplace : root ++ spelled steps = place)
    (hA : A place) (hput : d.tree.CanPut place) (hk : k = .dir ∨ ∃ content, k = .file content) :
    Within A d ({ d with tree := d.tree.put place k hput }.note root steps place) where
  writes := ⟨[⟨root ++ spelled steps, place⟩], rfl, fun w hw => by
    rw [List.mem_singleton.1 hw]
    exact ⟨hplace.symm, hA⟩⟩
  same := fun p hp => by
    show (d.tree.put place k hput).kind p = d.tree.kind p
    rw [kind_put, if_neg]
    rintro rfl
    exact hp hA
  plain := fun p k' (hk' : (d.tree.put place k hput).kind p = _) => by
    rw [kind_put] at hk'
    split_ifs at hk'
    · rw [← Option.some.inj hk']
      exact .inr hk
    · exact .inl hk'
  logged := fun p k' (hk : (d.tree.put place k hput).kind p = _) => by
    rw [kind_put] at hk
    split_ifs at hk with hp
    · exact .inr ⟨⟨root ++ spelled steps, place⟩, List.mem_append_right _ (by simp), hp.symm⟩
    · exact .inl hk

end Within

/-- Only places below `L` were written. -/
abbrev Below (L : Place FileName) (d d' : Disk C) : Prop := Within (fun p => L <+: p) d d'

/-! ### Paths that stay in directories -/

/-- The path stays in directories and leads to the place that it spells. -/
structure Leads (t : Tree FileName C) (root : Place FileName) (steps : List (Step FileName)) : Prop where
  up : .up ∉ steps
  dirs : ∀ q, q <+: spelled steps → t.kind (root ++ q) = some .dir

theorem Leads.walk {t : Tree FileName C} (h : Leads t root steps) (follow : Bool) (hops : ℕ)
    (rest : List (Step FileName)) :
    t.walk follow hops root (steps ++ rest) = t.walk follow hops (root ++ spelled steps) rest :=
  walk_append hops h.up fun q hq _ => h.dirs q hq

theorem leads_of_dir {t : Tree FileName C} (hup : .up ∉ steps)
    (hdir : t.kind (root ++ spelled steps) = some .dir) : Leads t root steps := by
  refine ⟨hup, fun q hq => ?_⟩
  by_cases hne : q = spelled steps
  · rwa [hne]
  · refine dir_of_prefix (by rw [hdir]; simp) ((List.prefix_append_right_inj root).2 hq) ?_
    simpa using hne

/-- Changes below a place of a directory leave the way to the directory. -/
theorem Leads.of_below (h : Leads d.tree root steps) (hbelow : Below (root ++ spelled steps ++ [n]) d d') :
    Leads d'.tree root steps := by
  refine ⟨h.up, fun q hq => ?_⟩
  rw [hbelow.same, h.dirs q hq]
  intro hpre
  have hle := hpre.length_le
  have hle' := hq.length_le
  simp only [List.length_append, List.length_singleton] at hle
  omega

/-- The place is taken by something that is neither a directory nor a link. -/
def Blocked (t : Tree FileName C) (p : Place FileName) : Prop :=
  t.kind p ≠ some .dir ∧ ∀ target, t.kind p ≠ some (.link target)

section Walks

variable {t : Tree FileName C} {P : Place FileName} {follow : Bool} {hops : ℕ}

theorem walk_child (hlink : follow = true → ∀ target, t.kind (P ++ [n]) ≠ some (.link target)) :
    t.walk follow hops P [.down n] = some (P ++ [n]) := by
  refine walk_names hops (fun q hq hnil hne => ?_) hlink
  obtain ⟨q, rfl, htail⟩ := exists_cons_of_prefix hq hnil
  rw [List.prefix_nil.1 htail] at hne
  exact absurd rfl hne

/-- Nothing is found behind something that is no directory. -/
theorem walk_blocked (hblocked : Blocked t (P ++ [n])) (hrest : rest ≠ []) :
    t.walk follow hops P (.down n :: rest) = none := by
  have hgo (expand : Place FileName → Target FileName → List (Step FileName) → Option (Place FileName)) :
      t.walkWith expand follow P (.down n :: rest) = none := by
    rw [walkWith]
    cases hkind : t.kind (P ++ [n]) with
    | none => simp [hrest]
    | some k =>
      cases k with
      | dir => exact absurd hkind hblocked.1
      | link target => exact absurd hkind (hblocked.2 target)
      | file c => simp [hrest]
      | special => simp [hrest]
  cases hops with
  | zero => exact hgo _
  | succ hops => exact hgo _

end Walks

/-- A path that ends at a name in a directory, with slashes and dots behind it. -/
theorem Leads.concat {t : Tree FileName C} (h : Leads t root steps) (htail : ∀ step ∈ tail, step = .here)
    (hdir : t.kind (root ++ spelled steps ++ [n]) = some .dir) : Leads t root (steps ++ .down n :: tail) := by
  refine ⟨?_, fun q hq => ?_⟩
  · intro hup
    obtain hup | hup := List.mem_append.1 hup
    · exact h.up hup
    · obtain hup | hup := List.mem_cons.1 hup
      · cases hup
      · cases htail _ hup
  · rw [spelled_append, spelled_down htail] at hq
    obtain rfl | hq := List.prefix_concat_iff.1 hq
    · rwa [← List.append_assoc]
    · exact h.dirs q hq

/-- What a call sees of such a path that leads to no link: the entry, if it is a directory or nothing stands
behind the name. -/
theorem Leads.walk_down {t : Tree FileName C} (h : Leads t root steps)
    (htail : ∀ step ∈ tail, step = .here)
    (hlink : ∀ target, t.kind (root ++ spelled steps ++ [n]) ≠ some (.link target)) (follow : Bool) :
    t.walk follow maxLinks root (steps ++ .down n :: tail) =
      if tail = [] ∨ t.kind (root ++ spelled steps ++ [n]) = some .dir then
        some (root ++ spelled steps ++ [n])
      else none := by
  split_ifs with hcase
  · obtain rfl | hdir := hcase
    · rw [h.walk]
      exact walk_child fun _ => hlink
    · have hleads := (h.concat htail hdir).walk follow maxLinks []
      rw [List.append_nil] at hleads
      rw [hleads, spelled_append, spelled_down htail, ← List.append_assoc]
      rfl
  · rw [not_or] at hcase
    rw [h.walk]
    exact walk_blocked ⟨hcase.2, hlink⟩ hcase.1

/-! ### One entry -/

/-- A link at the target is removed, if nothing stands behind its name. -/
theorem removeLink_below (h : Leads d.tree root steps) (htail : ∀ step ∈ tail, step = .here)
    (hopen : tail ≠ [] → ∀ target, d.tree.kind (root ++ spelled steps ++ [n]) ≠ some (.link target)) :
    ∃ d', d.removeLink root (steps ++ .down n :: tail) = some d' ∧
      Below (root ++ spelled steps ++ [n]) d d' ∧
      ∀ target, d'.tree.kind (root ++ spelled steps ++ [n]) ≠ some (.link target) := by
  have hne : root ++ spelled steps ++ [n] ≠ [] := by simp
  unfold Disk.removeLink
  by_cases hlink : ∃ target, d.tree.kind (root ++ spelled steps ++ [n]) = some (.link target)
  · obtain ⟨target, hlink⟩ := hlink
    have hnil : tail = [] := by
      by_contra hnil
      exact hopen hnil target hlink
    subst hnil
    have hwalk : d.tree.walk false maxLinks root (steps ++ [.down n]) =
        some (root ++ spelled steps ++ [n]) := by
      rw [h.walk]
      exact walk_child (by simp)
    have hlstat : d.tree.lstat root (steps ++ [.down n]) = some (.link target) := by
      rw [lstat, hwalk, Option.bind_some, hlink]
    have hremove : d.tree.removeFile root (steps ++ [.down n]) =
        some (d.tree.remove (root ++ spelled steps ++ [n])) :=
      removeFile_eq_some.2 ⟨_, hwalk, by rw [hlink]; simp, by rw [hlink]; simp, rfl⟩
    rw [hlstat, hremove]
    refine ⟨_, rfl, Within.remove hne fun _ h => h, fun target => ?_⟩
    rw [kind_remove hne, if_pos (List.prefix_refl _)]
    simp
  · rw [not_exists] at hlink
    have hlstat : (d.tree.lstat root (steps ++ .down n :: tail)).any Kind.isLink = false := by
      rw [lstat, h.walk_down htail hlink]
      split_ifs
      · rw [Option.bind_some]
        cases hkind : d.tree.kind (root ++ spelled steps ++ [n]) with
        | none => rfl
        | some k =>
          cases k with
          | link target => exact absurd hkind (hlink target)
          | file c => rfl
          | dir => rfl
          | special => rfl
      · rfl
    rw [hlstat]
    exact ⟨d, rfl, Within.refl _ d, hlink⟩

/-- The place of an entry that is neither a directory nor a link can be written. -/
theorem Leads.canPut {t : Tree FileName C} (h : Leads t root steps)
    (hdir : t.kind (root ++ spelled steps ++ [n]) ≠ some .dir) :
    t.CanPut (root ++ spelled steps ++ [n]) := by
  refine ⟨by simp, ?_, hdir⟩
  rw [List.dropLast_concat]
  exact h.dirs _ (List.prefix_refl _)

theorem spelled_concat_down (htail : ∀ step ∈ tail, step = .here) :
    root ++ spelled (steps ++ .down n :: tail) = root ++ spelled steps ++ [n] := by
  rw [spelled_append, spelled_down htail, List.append_assoc]

/-- A file is written where its path says, if there is no link. -/
theorem copy_below (h : Leads d.tree root steps) (htail : ∀ step ∈ tail, step = .here)
    (hlink : ∀ target, d.tree.kind (root ++ spelled steps ++ [n]) ≠ some (.link target)) (content : C) :
    Below (root ++ spelled steps ++ [n]) d (d.copy content root (steps ++ .down n :: tail)).1 := by
  unfold Disk.copy
  rw [h.walk_down htail hlink]
  split_ifs with hcase
  · have hwrite (hdir : d.tree.kind (root ++ spelled steps ++ [n]) ≠ some .dir) :
        Below (root ++ spelled steps ++ [n]) d
          ({ d with tree := d.tree.write (root ++ spelled steps ++ [n]) (.file content) }.note root
            (steps ++ Step.down n :: tail) (root ++ spelled steps ++ [n])) := by
      rw [write, dif_pos (h.canPut hdir)]
      exact Within.put (spelled_concat_down htail) (List.prefix_refl _) _ (.inr ⟨content, rfl⟩)
    cases hkind : d.tree.kind (root ++ spelled steps ++ [n]) with
    | none =>
      simp only [hkind]
      exact hwrite (by rw [hkind]; simp)
    | some k =>
      cases k with
      | dir =>
        simp only [hkind]
        exact Within.refl _ d
      | link target => exact absurd hkind (hlink target)
      | file c =>
        simp only [hkind]
        exact hwrite (by rw [hkind]; simp)
      | special =>
        -- a device takes the content; its entry stays
        simp only [hkind]
        refine ⟨⟨[_], rfl, fun w hw => ?_⟩, fun _ _ => rfl, fun _ _ h => .inl h, fun _ _ h => .inl h⟩
        rw [List.mem_singleton.1 hw]
        exact ⟨(spelled_concat_down htail).symm, List.prefix_refl _⟩
  · exact Within.refl _ d

/-- Where nothing is, the file is there afterwards. -/
theorem copy_spec (h : Leads d.tree root steps) (hnone : d.tree.kind (root ++ spelled steps ++ [n]) = none)
    (content : C) :
    ∃ d', d.copy content root (steps ++ [.down n]) = (d', true) ∧
      Below (root ++ spelled steps ++ [n]) d d' ∧
      d'.tree.kind (root ++ spelled steps ++ [n]) = some (.file content) := by
  have hlink (target : Target FileName) :
      d.tree.kind (root ++ spelled steps ++ [n]) ≠ some (.link target) := by
    rw [hnone]
    simp
  have hput : d.tree.CanPut (root ++ spelled steps ++ [n]) := h.canPut (by rw [hnone]; simp)
  have hbelow := copy_below h here_nil hlink content
  have heq : d.copy content root (steps ++ [.down n]) =
      ({ d with tree := d.tree.write (root ++ spelled steps ++ [n]) (.file content) }.note root
        (steps ++ [Step.down n]) (root ++ spelled steps ++ [n]), true) := by
    rw [Disk.copy, h.walk_down here_nil hlink, if_pos (.inl rfl)]
    simp only [hnone]
  rw [heq] at hbelow
  refine ⟨_, heq, hbelow, ?_⟩
  show (d.tree.write _ _).kind _ = _
  rw [kind_write hput, if_pos rfl]

/-! ### Directories -/

section Directories

variable {done names : Place FileName}

theorem leads_down {t : Tree FileName C} (hdone : ∀ q, q <+: done → t.kind (root ++ q) = some .dir) :
    Leads t root (done.map Step.down) := by
  refine ⟨by simp, fun q hq => ?_⟩
  rw [spelled_map_down] at hq
  exact hdone q hq

/-- Directories that are there are passed over. -/
theorem createDirAll_append (done names : Place FileName)
    (hdone : ∀ q, q <+: done ++ names → d.tree.kind (root ++ q) = some .dir) (rest : Place FileName) :
    d.createDirAll root done (names ++ rest) = d.createDirAll root (done ++ names) rest := by
  induction names generalizing done with
  | nil => rw [List.nil_append, List.append_nil]
  | cons n names ih =>
    rw [List.append_cons] at hdone ⊢
    have hleads := leads_down fun q hq => hdone q (hq.trans (List.prefix_append _ names))
    have hstat : d.tree.stat root ((done ++ [n]).map Step.down) = some .dir := by
      have hwalk := hleads.walk true maxLinks []
      rw [List.append_nil, spelled_map_down] at hwalk
      rw [stat, hwalk]
      exact hdone _ (List.prefix_append _ names)
    rw [List.cons_append, Disk.createDirAll, hstat]
    exact ih (done ++ [n]) hdone

theorem walk_concat (hdone : ∀ q, q <+: done → d.tree.kind (root ++ q) = some .dir)
    (hlink : ∀ target, d.tree.kind (root ++ done ++ [n]) ≠ some (.link target)) (follow : Bool) :
    d.tree.walk follow maxLinks root ((done ++ [n]).map Step.down) = some (root ++ done ++ [n]) := by
  have hwalk := (leads_down hdone).walk follow maxLinks [.down n]
  rw [spelled_map_down] at hwalk
  rw [List.map_append]
  exact hwalk.trans (walk_child fun _ => hlink)

/-- A missing directory is made. -/
theorem createDirAll_missing (names : Place FileName) (hdone : ∀ q, q <+: done → d.tree.kind (root ++ q) = some .dir)
    (hnone : d.tree.kind (root ++ done ++ [n]) = none) :
    ∃ d', d.createDirAll root done (n :: names) = d'.createDirAll root (done ++ [n]) names ∧
      Within (fun p => p = root ++ done ++ [n]) d d' ∧
      d'.tree.kind (root ++ done ++ [n]) = some .dir := by
  have hlink (target : Target FileName) : d.tree.kind (root ++ done ++ [n]) ≠ some (.link target) := by
    rw [hnone]
    simp
  have hput : d.tree.CanPut (root ++ done ++ [n]) := by
    refine ⟨by simp, ?_, by rw [hnone]; simp⟩
    rw [List.dropLast_concat]
    exact hdone done (List.prefix_refl _)
  have hstat : d.tree.stat root ((done ++ [n]).map Step.down) = none := by
    rw [stat, walk_concat hdone hlink, Option.bind_some, hnone]
  refine ⟨{ d with tree := d.tree.put (root ++ done ++ [n]) .dir hput }.note root
    ((done ++ [n]).map Step.down) (root ++ done ++ [n]), ?_, ?_, ?_⟩
  · rw [Disk.createDirAll, hstat]
    simp only [walk_concat hdone hlink]
    rw [if_neg (by rw [hnone]; simp), mkdir, dif_pos ⟨hnone, hput⟩]
  · have hplace : root ++ spelled ((done ++ [n]).map Step.down) = root ++ done ++ [n] := by
      rw [spelled_map_down, List.append_assoc]
    exact Within.put (A := fun p => p = root ++ done ++ [n]) (k := .dir) hplace rfl hput (.inl rfl)
  · show (d.tree.put _ _ hput).kind _ = _
    rw [kind_put, if_pos rfl]

/-- Something that is no directory ends the work. -/
theorem createDirAll_blocked (hdone : ∀ q, q <+: done → d.tree.kind (root ++ q) = some .dir)
    (hblocked : Blocked d.tree (root ++ done ++ [n])) (hkind : d.tree.kind (root ++ done ++ [n]) ≠ none) :
    d.createDirAll root done (n :: names) = (d, false) := by
  obtain ⟨k, hk⟩ := Option.ne_none_iff_exists'.1 hkind
  have hstat : d.tree.stat root ((done ++ [n]).map Step.down) = some k := by
    rw [stat, walk_concat hdone hblocked.2, Option.bind_some, hk]
  rw [Disk.createDirAll, hstat]
  cases k with
  | dir => exact absurd hk hblocked.1
  | file c => rfl
  | link target => rfl
  | special => rfl

/-- Where nothing but directories is in the way, all of them are there afterwards. -/
theorem createDirAll_spec (hdone : ∀ q, q <+: done → d.tree.kind (root ++ q) = some .dir)
    (hfree : ∀ q, q <+: names → q ≠ [] →
      d.tree.kind (root ++ (done ++ q)) = none ∨ d.tree.kind (root ++ (done ++ q)) = some .dir) :
    ∃ d', d.createDirAll root done names = (d', true) ∧
      Within (fun p => ∃ q, q <+: names ∧ q ≠ [] ∧ p = root ++ (done ++ q)) d d' ∧
      ∀ q, q <+: done ++ names → d'.tree.kind (root ++ q) = some .dir := by
  induction names generalizing d done with
  | nil =>
    refine ⟨d, rfl, Within.refl _ d, fun q hq => ?_⟩
    rw [List.append_nil] at hq
    exact hdone q hq
  | cons n names ih =>
    have hstep : ∃ d', d.createDirAll root done (n :: names) = d'.createDirAll root (done ++ [n]) names ∧
        Within (fun p => p = root ++ done ++ [n]) d d' ∧
        d'.tree.kind (root ++ done ++ [n]) = some .dir := by
      obtain hnone | hdir := hfree [n] ⟨names, rfl⟩ (by simp)
      · rw [← List.append_assoc] at hnone
        exact createDirAll_missing names hdone hnone
      · refine ⟨d, createDirAll_append done [n] (fun q hq => ?_) names, Within.refl _ d, ?_⟩
        · obtain rfl | hq := List.prefix_concat_iff.1 hq
          · exact hdir
          · exact hdone q hq
        · rwa [List.append_assoc]
    obtain ⟨d', heq, hwithin, hdir⟩ := hstep
    have hdone' : ∀ q, q <+: done ++ [n] → d'.tree.kind (root ++ q) = some .dir := by
      intro q hq
      obtain rfl | hq := List.prefix_concat_iff.1 hq
      · rwa [← List.append_assoc]
      · refine dir_of_prefix (by rw [hdir]; simp) (q := root ++ done ++ [n]) ?_ ?_
        · rw [List.append_assoc]
          exact (List.prefix_append_right_inj root).2 (hq.trans (List.prefix_append _ _))
        · intro heq
          have hlen := congrArg List.length heq
          have hle := hq.length_le
          simp only [List.length_append, List.length_singleton] at hlen
          omega
    obtain ⟨d'', heq', hwithin', hdirs⟩ := ih hdone' fun q hq hnil => by
      rw [hwithin.same _ (by simpa using hnil)]
      simpa using hfree (n :: q) (List.cons_prefix_cons.2 ⟨rfl, hq⟩) (by simp)
    refine ⟨d'', heq.trans heq', (hwithin.mono ?_).trans (hwithin'.mono ?_), ?_⟩
    · rintro p rfl
      exact ⟨[n], ⟨names, rfl⟩, by simp, by simp⟩
    · rintro p ⟨q, hq, -, rfl⟩
      exact ⟨n :: q, List.cons_prefix_cons.2 ⟨rfl, hq⟩, by simp, by simp⟩
    · rw [List.append_cons]
      exact hdirs

end Directories

/-! ### Loops over entries -/

/-- A loop over entries that ends at the first error. -/
def eachEntry {α : Type} (copyOne : Disk C → α → Disk C × Bool) : List α → Disk C → Disk C × Bool
  | [], d => (d, true)
  | a :: rest, d =>
      match copyOne d a with
      | (d', true) => eachEntry copyOne rest d'
      | (d', false) => (d', false)

section Loops

variable {α : Type} {copyOne : Disk C → α → Disk C × Bool} {items : List α} {P : Place FileName}

/-- Changes below a place of a directory leave the directory. -/
theorem Within.dir_of_below (h : Below (P ++ [n]) d d') (hdir : d.tree.kind P = some .dir) :
    d'.tree.kind P = some .dir := by
  rw [h.same P fun hpre => by simpa using hpre.length_le, hdir]

/-- Entries that are written below their own names are written below the directory. -/
theorem eachEntry_below (key : α → FileName) (Keeps : Disk C → Prop) (hkeeps : ∀ d d', Keeps d → Below P d d' → Keeps d')
    (hone : ∀ a d, Keeps d → d.tree.kind P = some .dir → Below (P ++ [key a]) d (copyOne d a).1)
    (hd : Keeps d) (hdir : d.tree.kind P = some .dir) : Below P d (eachEntry copyOne items d).1 := by
  induction items generalizing d with
  | nil => exact Within.refl _ d
  | cons a rest ih =>
    have hbelow := hone a d hd hdir
    have hmono : Below P d (copyOne d a).1 := hbelow.mono fun p hp => (List.prefix_append _ _).trans hp
    rw [eachEntry]
    cases hcopy : copyOne d a with
    | mk d' ok =>
      rw [hcopy] at hbelow hmono
      cases ok with
      | false => exact hmono
      | true => exact hmono.trans (ih (hkeeps d d' hd hmono) (hbelow.dir_of_below hdir))

/-- If every entry can be copied into a directory where it is missing, all of them are copied. `Wanted` are
the files that an entry consists of. -/
theorem eachEntry_spec (key : α → FileName) {Wanted : α → Place FileName → C → Prop} (Keeps : Disk C → Prop)
    (hkeeps : ∀ d d', Keeps d → Below P d d' → Keeps d')
    (hone : ∀ a ∈ items, ∀ d, Keeps d → d.tree.kind P = some .dir → d.tree.kind (P ++ [key a]) = none →
      ∃ d', copyOne d a = (d', true) ∧ Below (P ++ [key a]) d d' ∧
        ∀ q content, Wanted a q content → d'.tree.kind (P ++ key a :: q) = some (.file content))
    (hnodup : (items.map key).Nodup) (hd : Keeps d) (hdir : d.tree.kind P = some .dir)
    (hnone : ∀ a ∈ items, d.tree.kind (P ++ [key a]) = none) :
    ∃ d', eachEntry copyOne items d = (d', true) ∧
      Within (fun p => ∃ a ∈ items, P ++ [key a] <+: p) d d' ∧
      ∀ a ∈ items, ∀ q content, Wanted a q content →
        d'.tree.kind (P ++ key a :: q) = some (.file content) := by
  induction items generalizing d with
  | nil => exact ⟨d, rfl, Within.refl _ d, by simp⟩
  | cons a rest ih =>
    rw [List.map_cons, List.nodup_cons] at hnodup
    obtain ⟨d', hcopy, hbelow, hwanted⟩ := hone a (by simp) d hd hdir (hnone a (by simp))
    have hd' : Keeps d' := hkeeps d d' hd (hbelow.mono fun p hp => (List.prefix_append _ _).trans hp)
    have hother (b : α) (hb : b ∈ rest) (q : Place FileName) : ¬ P ++ [key a] <+: P ++ key b :: q := by
      rw [List.prefix_append_right_inj, List.cons_prefix_cons]
      rintro ⟨heq, -⟩
      exact hnodup.1 (heq ▸ List.mem_map_of_mem hb)
    obtain ⟨d'', hrest, hwithin, hwanted'⟩ := ih (fun b hb => hone b (by simp [hb])) hnodup.2 hd'
      (hbelow.dir_of_below hdir) fun b hb => by
        rw [hbelow.same _ (hother b hb []), hnone b (by simp [hb])]
    refine ⟨d'', by rw [eachEntry, hcopy]; exact hrest, ?_, ?_⟩
    · refine (hbelow.mono fun p hp => ?_).trans (hwithin.mono ?_)
      · exact ⟨a, by simp, hp⟩
      · rintro p ⟨b, hb, hp⟩
        exact ⟨b, by simp [hb], hp⟩
    · intro b hb q content hwant
      obtain rfl | hb := List.mem_cons.1 hb
      · -- the later entries have other names
        rw [hwithin.same]
        · exact hwanted q content hwant
        · rintro ⟨c, hc, hpre⟩
          rw [List.prefix_append_right_inj, List.cons_prefix_cons] at hpre
          exact hnodup.1 (hpre.1 ▸ List.mem_map_of_mem hc)
      · exact hwanted' b hb q content hwant

end Loops

/-! ### One path after another -/

/-- The directories on the way to a place were made, or left as they were, and what is below it was written. -/
structure Touched (root p : Place FileName) (d d' : Disk C) : Prop where
  within : Within (fun x => (∃ q, q <+: p.dropLast ∧ q ≠ [] ∧ x = root ++ q) ∨ root ++ p <+: x) d d'
  dirs : ∀ q, q <+: p.dropLast →
    d'.tree.kind (root ++ q) = some .dir ∨ d'.tree.kind (root ++ q) = d.tree.kind (root ++ q)

/-- Only directories are on the way to the places of `A`, as far as they are there. -/
def Ready (A : Place FileName → Prop) (root : Place FileName) (d : Disk C) : Prop :=
  ∀ p, A p → ∀ q, q <+: p → q ≠ p →
    d.tree.kind (root ++ q) = none ∨ d.tree.kind (root ++ q) = some .dir

/-- No place of `A` lies below another one. -/
def PrefixFree (A : Place FileName → Prop) : Prop := ∀ p p', A p → A p' → p <+: p' → p = p'

namespace Touched

variable {p p' : Place FileName}

theorem refl (root p : Place FileName) (d : Disk C) : Touched root p d d :=
  ⟨Within.refl _ d, fun _ _ => .inr rfl⟩

theorem of_below (hp : p ≠ [])
    (hparents : Within (fun x => ∃ q, q <+: p.dropLast ∧ q ≠ [] ∧ x = root ++ ([] ++ q)) d d')
    (hdirs : ∀ q, q <+: [] ++ p.dropLast → d'.tree.kind (root ++ q) = some .dir)
    (hbelow : Below (root ++ p) d' d'') : Touched root p d d'' where
  within := (hparents.mono fun _ h => .inl h).trans (hbelow.mono fun _ h => .inr h)
  dirs := fun q hq => .inl <| by
    rw [hbelow.same, hdirs q hq]
    intro hpre
    have hle := hpre.length_le
    have hle' := hq.length_le
    have hpos := List.length_pos_iff.2 hp
    simp only [List.length_append, List.length_dropLast] at hle hle'
    omega

/-- What is below another place stays. -/
theorem other (h : Touched root p d d') (hfree : PrefixFree A) (hp : A p) (hp' : A p') (hne : p' ≠ p)
    {x : Place FileName} (hx : root ++ p' <+: x) : d'.tree.kind x = d.tree.kind x := by
  refine h.within.same x ?_
  rintro (⟨q, hq, -, rfl⟩ | hpx)
  · rw [List.prefix_append_right_inj] at hx
    exact hne (hfree p' p hp' hp (hx.trans (hq.trans (List.dropLast_prefix _))))
  · obtain hpre | hpre := List.prefix_or_prefix_of_prefix hx hpx
    · rw [List.prefix_append_right_inj] at hpre
      exact hne (hfree p' p hp' hp hpre)
    · rw [List.prefix_append_right_inj] at hpre
      exact hne (hfree p p' hp hp' hpre).symm

theorem ready (h : Touched root p d d') (hfree : PrefixFree A) (hp : A p) (hready : Ready A root d) :
    Ready A root d' := by
  intro p' hp' q hq hne
  by_cases hpre : q <+: p.dropLast
  · obtain hdir | hsame := h.dirs q hpre
    · exact .inr hdir
    · rw [hsame]
      exact hready p' hp' q hq hne
  · rw [h.within.same]
    · exact hready p' hp' q hq hne
    · rintro (⟨r, hr, -, heq⟩ | hpq)
      · rw [List.append_cancel_left heq] at hpre
        exact hpre hr
      · rw [List.prefix_append_right_inj] at hpq
        obtain rfl := hfree p p' hp hp' (hpq.trans hq)
        exact hne (hq.eq_of_length_le hpq.length_le)

end Touched

end Kyth.Transfer
