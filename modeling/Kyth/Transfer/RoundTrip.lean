import Kyth.Transfer.Export
import Kyth.Transfer.Restore

/-!
# Exporting and restoring a setup (`setup_transfer.rs`)

`export_setup` copies what the settings paths lead to, `restore_files` copies the paths of the manifest back.

* `Copies` says that a tree has at one place what another path leads to, name by name;
* `Exports` is what `stageFiles` keeps from one path to the next;
* `Unpacked` relates the staged tree to the payload that comes out of the archive;
* `setup_round_trip`: the manifest names the paths that can be copied, and after a restore each of them has
  the files and directories that it led to when it was exported.
-/

namespace Kyth.Transfer

open FileTree FileTree.Tree Json Serde Str

variable {C : Type} {t : Tree FileName C} {root P : Place FileName} {n : FileName} {d d' : Disk C}
  {source : List (Step FileName)} {rel : String}

/-! ### What a copy looks like -/

/-- A place has what a path leads to, and below it what lies below that. -/
def Copies (t : Tree FileName C) (root : Place FileName) (source : List (Step FileName))
    (copy : Tree FileName C) (target : Place FileName) : Prop :=
  ∀ q, copy.kind (target ++ q) = t.stat root (source ++ q.map Step.down)

theorem Copies.of_same {copy copy' : Tree FileName C} {target : Place FileName}
    (h : Copies t root source copy target) (hsame : ∀ p, target <+: p → copy'.kind p = copy.kind p) :
    Copies t root source copy' target :=
  fun q => by rw [hsame _ (List.prefix_append _ _), h q]

/-- A loop that succeeds has copied every entry. `Done` says what a copied entry is, by the places below its
name. -/
theorem eachEntry_done {α : Type} {copyOne : Disk C → α → Disk C × Bool} {items : List α}
    (key : α → FileName) (Done : α → Disk C → Prop) (Keeps : Disk C → Prop)
    (hkeeps : ∀ d d', Keeps d → Below P d d' → Keeps d')
    (hstable : ∀ a d d', (∀ p, P ++ [key a] <+: p → d'.tree.kind p = d.tree.kind p) → Done a d → Done a d')
    (hone : ∀ a ∈ items, ∀ d d', Keeps d → d.tree.kind P = some .dir → d.tree.kind (P ++ [key a]) = none →
      copyOne d a = (d', true) → Below (P ++ [key a]) d d' ∧ Done a d')
    (hnodup : (items.map key).Nodup) (hd : Keeps d) (hdir : d.tree.kind P = some .dir)
    (hnone : ∀ a ∈ items, d.tree.kind (P ++ [key a]) = none)
    (h : eachEntry copyOne items d = (d', true)) :
    Within (fun p => ∃ a ∈ items, P ++ [key a] <+: p) d d' ∧ ∀ a ∈ items, Done a d' := by
  induction items generalizing d with
  | nil =>
    cases h
    exact ⟨Within.refl _ _, by simp⟩
  | cons a rest ih =>
    rw [List.map_cons, List.nodup_cons] at hnodup
    rw [eachEntry] at h
    cases hcopy : copyOne d a with
    | mk d₁ ok =>
      rw [hcopy] at h
      cases ok with
      | false => cases h
      | true =>
        obtain ⟨hbelow, hdone⟩ := hone a (by simp) d d₁ hd hdir (hnone a (by simp)) hcopy
        have hd₁ : Keeps d₁ := hkeeps d d₁ hd (hbelow.mono fun p hp => (List.prefix_append _ _).trans hp)
        have hother : ∀ b ∈ rest, ¬ P ++ [key a] <+: P ++ [key b] := by
          intro b hb hpre
          rw [List.prefix_append_right_inj, List.cons_prefix_cons] at hpre
          exact hnodup.1 (hpre.1 ▸ List.mem_map_of_mem hb)
        obtain ⟨hwithin, hrest⟩ := ih (fun b hb => hone b (by simp [hb])) hnodup.2 hd₁
          (hbelow.dir_of_below hdir)
          (fun b hb => by rw [hbelow.same _ (hother b hb), hnone b (by simp [hb])]) h
        refine ⟨(hbelow.mono fun p hp => ⟨a, by simp, hp⟩).trans (hwithin.mono ?_), fun b hb => ?_⟩
        · rintro p ⟨b, hb, hp⟩
          exact ⟨b, by simp [hb], hp⟩
        · obtain rfl | hb := List.mem_cons.1 hb
          · -- the later entries have other names
            refine hstable b d₁ d' (fun p hp => hwithin.same p ?_) hdone
            rintro ⟨c, hc, hp'⟩
            obtain hpre | hpre := List.prefix_or_prefix_of_prefix hp hp'
            · exact hother c hc hpre
            · rw [List.prefix_append_right_inj, List.cons_prefix_cons] at hpre
              exact hother c hc (by rw [hpre.1])
          · exact hrest b hb

/-- Every entry of a loop that succeeds is copied at some time. -/
theorem exists_of_eachEntry {α : Type} {copyOne : Disk C → α → Disk C × Bool} {items : List α}
    (h : eachEntry copyOne items d = (d', true)) : ∀ a ∈ items, ∃ d₁ d₂, copyOne d₁ a = (d₂, true) := by
  induction items generalizing d with
  | nil => simp
  | cons a rest ih =>
    rw [eachEntry] at h
    cases hcopy : copyOne d a with
    | mk d₁ ok =>
      rw [hcopy] at h
      cases ok with
      | false => cases h
      | true => exact List.forall_mem_cons.2 ⟨⟨d, d₁, hcopy⟩, ih h⟩

/-! ### What can be copied -/

/-- A file has no entries. -/
theorem readDir_of_file {content : C} (h : t.stat root source = some (.file content)) :
    t.readDir root source = none := by
  unfold stat at h
  unfold readDir
  cases hwalk : t.walk true maxLinks root source with
  | none => rfl
  | some place =>
    rw [hwalk, Option.bind_some] at h
    dsimp only
    rw [if_neg]
    rw [h]
    simp

theorem stat_of_copyFileDeref (h : copyFileDeref t root source d P = (d', true)) :
    ∃ content, t.stat root source = some (.file content) := by
  unfold copyFileDeref at h
  cases hclear : d.clear P with
  | none =>
    rw [hclear] at h
    cases h
  | some d₁ =>
    rw [hclear] at h
    dsimp only at h
    split at h
    next content hstat => exact ⟨content, hstat⟩
    next => cases h

/-- Only what can be copied is copied with success. -/
theorem copyable_of_copyDirDerefInner {levels : ℕ} (hstat : t.stat root source = some .dir)
    (h : copyDirDerefInner t root levels source d P = (d', true)) : Copyable t root levels source := by
  induction levels generalizing source d d' P with
  | zero => cases h
  | succ levels ih =>
    obtain ⟨names, hnames, -⟩ := readDir_of_stat hstat
    rw [copyDirDerefInner, hnames] at h
    cases hcreate : d.createDirAll [] [] P with
    | mk d₁ ok =>
      rw [hcreate] at h
      cases ok with
      | false => cases h
      | true =>
        intro q hq
        cases q with
        | nil => exact .inr ⟨by simpa using hstat, by simp⟩
        | cons m q =>
          obtain ⟨names', hnames', hm⟩ := hq [] m (by simp)
          rw [List.map_nil, List.append_nil, hnames] at hnames'
          obtain rfl := Option.some.inj hnames'
          obtain ⟨d₂, d₃, hcopy⟩ := exists_of_eachEntry h m hm
          have hlisted : Listed t root (source ++ [.down m]) q := by
            intro r c hpre
            simpa using hq (m :: r) c (List.cons_prefix_cons.2 ⟨rfl, hpre⟩)
          split_ifs at hcopy with hsub
          · obtain ⟨content, hfile⟩ | ⟨hdir, hlt⟩ := ih hsub hcopy q hlisted
            · exact .inl ⟨content, by simpa using hfile⟩
            · exact .inr ⟨by simpa using hdir, by simpa using hlt⟩
          · obtain ⟨content, hfile⟩ := stat_of_copyFileDeref hcopy
            cases q with
            | nil => exact .inl ⟨content, by simpa using hfile⟩
            | cons c q =>
              -- below a file nothing is listed
              obtain ⟨names', hnames', -⟩ := hlisted [] c (by simp)
              rw [List.map_nil, List.append_nil, readDir_of_file hfile] at hnames'
              cases hnames'

/-! ### Copies that succeed -/

/-- A file is all that its path leads to. -/
theorem copies_file {copy : Tree FileName C} {target : Place FileName} {content : C}
    (hstat : t.stat root source = some (.file content)) (hkind : copy.kind target = some (.file content)) :
    Copies t root source copy target := by
  intro q
  cases q with
  | nil => rw [List.append_nil, List.map_nil, List.append_nil, hkind, hstat]
  | cons c q =>
    have hcopy : copy.kind (target ++ c :: q) = none :=
      none_of_prefix (by rw [hkind]; simp) (List.prefix_append _ _) (by simp)
    have hnone : t.stat root (source ++ (c :: q).map Step.down) = none := by
      by_contra hne
      have hdir := stat_of_down (by rwa [List.map_cons] at hne)
      rw [hstat] at hdir
      cases hdir
    rw [hcopy, hnone]

theorem copyFileDeref_copies (hdir : d.tree.kind P = some .dir) (hlinks : NoLinks d)
    (hnone : d.tree.kind (P ++ [n]) = none) (h : copyFileDeref t root source d (P ++ [n]) = (d', true)) :
    Below (P ++ [n]) d d' ∧ Copies t root source d'.tree (P ++ [n]) := by
  obtain ⟨content, hstat⟩ := stat_of_copyFileDeref h
  obtain ⟨d₁, hcopy, hbelow, hkind⟩ := copyFileDeref_spec hdir hlinks hnone hstat
  rw [h, Prod.mk.injEq] at hcopy
  obtain ⟨rfl, -⟩ := hcopy
  exact ⟨hbelow, copies_file hstat hkind⟩

/-- A directory that is copied with success looks like what its path leads to. -/
theorem copyDirDerefInner_copies {levels : ℕ} (hstat : t.stat root source = some .dir)
    (hdir : d.tree.kind P = some .dir) (hlinks : NoLinks d) (hnone : d.tree.kind (P ++ [n]) = none)
    (h : copyDirDerefInner t root levels source d (P ++ [n]) = (d', true)) :
    Below (P ++ [n]) d d' ∧ Copies t root source d'.tree (P ++ [n]) := by
  induction levels generalizing source d d' P n with
  | zero => cases h
  | succ levels ih =>
    obtain ⟨names, hnames, hnodup⟩ := readDir_of_stat hstat
    obtain ⟨d₁, hcreate, hwithin, hdir₁⟩ := createDirAll_new hdir hnone
    rw [copyDirDerefInner, hcreate, hnames] at h
    have hbelow : Below (P ++ [n]) d d₁ := by
      refine hwithin.mono ?_
      rintro p rfl
      exact List.prefix_refl _
    have hgone (m : FileName) : d₁.tree.kind (P ++ [n] ++ [m]) = none := by
      rw [hwithin.same _ (by simp)]
      exact none_of_prefix_none hnone (List.prefix_append _ _)
    obtain ⟨hloop, hdone⟩ := eachEntry_done (P := P ++ [n]) id
      (fun m d => Copies t root (source ++ [.down m]) d.tree (P ++ [n] ++ [m])) NoLinks
      (fun _ _ h h' => NoLinks.within h h')
      (fun m d d' hsame hm => hm.of_same hsame)
      (fun m _ d₂ d₃ hlinks₂ hdir₂ hnone₂ hcopy => by
        dsimp only [id] at hcopy ⊢
        split_ifs at hcopy with hsub
        · exact ih hsub hdir₂ hlinks₂ hnone₂ hcopy
        · exact copyFileDeref_copies hdir₂ hlinks₂ hnone₂ hcopy)
      (by simpa using hnodup) (hlinks.within hbelow) hdir₁ (fun m _ => hgone m) h
    refine ⟨hbelow.trans (hloop.mono ?_), fun q => ?_⟩
    · rintro p ⟨m, -, hp⟩
      exact (List.prefix_append _ _).trans hp
    · cases q with
      | nil =>
        rw [List.append_nil, List.map_nil, List.append_nil, hstat, hloop.same, hdir₁]
        rintro ⟨m, -, hpre⟩
        simpa using hpre.length_le
      | cons m q =>
        by_cases hm : m ∈ names
        · simpa using hdone m hm q
        · -- a name that is not listed is in neither of them
          have hcopy : d'.tree.kind (P ++ [n] ++ m :: q) = none := by
            rw [hloop.same]
            · exact none_of_prefix_none (hgone m)
                ((List.prefix_append_right_inj _).2 (List.cons_prefix_cons.2 ⟨rfl, List.nil_prefix⟩))
            · rintro ⟨c, hc, hpre⟩
              rw [List.prefix_append_right_inj, List.cons_prefix_cons] at hpre
              exact hm (hpre.1 ▸ hc)
          rw [hcopy]
          by_contra hne
          exact hm (mem_readDir hnames (by rw [← List.map_cons]; exact fun h => hne h.symm))

/-- What an export needs of a path. -/
def Fits (t : Tree FileName C) (root : Place FileName) (rel : String) : Prop :=
  t.stat root (stepsOf rel) ≠ none ∧ Copyable t root (maxDepth + 1) (stepsOf rel)

theorem fits_of_copyIntoPayload (h : copyIntoPayload t root d rel = (d', true)) : Fits t root rel := by
  unfold copyIntoPayload at h
  dsimp only at h
  by_cases hmissing : t.lstat root (stepsOf rel) = none
  · rw [if_pos hmissing] at h
    cases h
  rw [if_neg hmissing] at h
  cases hcreate : d.createDirAll [] [] (filesName :: placeOf rel).dropLast with
  | mk d₁ ok =>
    rw [hcreate] at h
    cases ok with
    | false => cases h
    | true =>
      dsimp only at h
      split_ifs at h with hsub
      · exact ⟨by rw [hsub]; simp, copyable_of_copyDirDerefInner hsub h⟩
      · obtain ⟨content, hfile⟩ := stat_of_copyFileDeref h
        refine ⟨by rw [hfile]; simp, fun q hq => ?_⟩
        cases q with
        | nil => exact .inl ⟨content, by simpa using hfile⟩
        | cons c q =>
          obtain ⟨names, hnames, -⟩ := hq [] c (by simp)
          rw [List.map_nil, List.append_nil, readDir_of_file hfile] at hnames
          cases hnames

/-- A path that is copied with success looks like what it leads to. -/
theorem copyIntoPayload_copies (hrel : Exported rel) (hready : Ready Staged [] d) (hlinks : NoLinks d)
    (hnone : d.tree.kind (filesName :: placeOf rel) = none) (h : copyIntoPayload t root d rel = (d', true)) :
    Copies t root (stepsOf rel) d'.tree (filesName :: placeOf rel) := by
  obtain ⟨d₁, hcreate, hparents, hdirs⟩ := createDirAll_parents hready ⟨_, hrel.allowlisted, rfl⟩
  obtain ⟨P, n, htarget⟩ := target_eq_concat rel
  have hlinks₁ := hlinks.within hparents
  have hdir : d₁.tree.kind P = some .dir := by
    rw [htarget, List.dropLast_concat] at hdirs
    exact hdirs P (List.prefix_refl _)
  have hnone₁ : d₁.tree.kind (P ++ [n]) = none := by
    rw [hparents.same, ← htarget, hnone]
    rintro ⟨q, hq, -, heq⟩
    rw [htarget, List.dropLast_concat] at hq
    have hle := hq.length_le
    have hlen := congrArg List.length heq
    simp only [List.nil_append, List.length_append, List.length_singleton] at hlen
    omega
  unfold copyIntoPayload at h
  dsimp only at h
  rw [htarget] at h ⊢
  by_cases hmissing : t.lstat root (stepsOf rel) = none
  · rw [if_pos hmissing] at h
    cases h
  rw [if_neg hmissing, ← htarget, hcreate, htarget] at h
  dsimp only at h
  split_ifs at h with hsub
  · exact (copyDirDerefInner_copies hsub hdir hlinks₁ hnone₁ h).2
  · exact (copyFileDeref_copies hdir hlinks₁ hnone₁ h).2

/-! ### All paths -/

/-- What holds while the paths are copied: those of the list are copied, and the target of every other one is
free, unless it cannot be copied. -/
structure Exports (t : Tree FileName C) (root : Place FileName) (state : Disk C × List String) : Prop where
  ready : Ready Staged [] state.1
  links : NoLinks state.1
  below : ∀ n q, state.1.tree.kind (n :: q) ≠ none → n = filesName
  exported : ∀ rel ∈ state.2, Exported rel
  copies : ∀ rel ∈ state.2, Copies t root (stepsOf rel) state.1.tree (filesName :: placeOf rel)
  fresh : ∀ rel, Exported rel → rel ∉ state.2 →
    state.1.tree.kind (filesName :: placeOf rel) = none ∨ ¬ Fits t root rel
  nodup : state.2.Nodup

theorem exports_nil (t : Tree FileName C) (root : Place FileName) :
    Exports t root ({ tree := Tree.empty }, []) where
  ready := by
    intro p _ q _ _
    cases q with
    | nil => exact .inr (kind_root _)
    | cons c q => exact .inl rfl
  links := by
    intro p target
    cases p with
    | nil => simp
    | cons c p => exact fun h => nomatch h
  below := fun _ _ h => absurd rfl h
  exported := by simp
  copies := by simp
  fresh := fun rel _ _ => .inl rfl
  nodup := List.nodup_nil

theorem Exported.ne_of_ne {rel' : String} (hrel : Exported rel) (hrel' : Exported rel') (hne : rel' ≠ rel) :
    filesName :: placeOf rel' ≠ filesName :: placeOf rel := by
  intro heq
  exact hne (hrel'.eq_of_prefix hrel ((List.cons.inj heq).2 ▸ List.prefix_refl _))

/-- One path is copied, or not. -/
theorem Exports.exportPath {state : Disk C × List String} (h : Exports t root state) (hrel : Exported rel)
    (hnew : rel ∉ state.2) : Exports t root (exportPath t root state rel) := by
  obtain ⟨d, copied⟩ := state
  have htouched : Touched [] (filesName :: placeOf rel) d (copyIntoPayload t root d rel).1 :=
    copyIntoPayload_touched hrel h.ready h.links
  have hready := htouched.ready prefixFree_staged ⟨_, hrel.allowlisted, rfl⟩ h.ready
  have hlinks := h.links.within htouched.within
  have hbelow : ∀ n q, (copyIntoPayload t root d rel).1.tree.kind (n :: q) ≠ none → n = filesName := by
    intro n q hkind
    by_contra hne
    rw [htouched.within.same] at hkind
    · exact hne (h.below n q hkind)
    · rintro (⟨r, hr, -, heq⟩ | hpre)
      · rw [List.nil_append] at heq
        rw [← heq] at hr
        exact hne (List.cons_prefix_cons.1 (hr.trans (List.dropLast_prefix _))).1
      · exact hne (List.cons_prefix_cons.1 hpre).1.symm
  have hother : ∀ rel', Exported rel' → rel' ≠ rel → ∀ p, filesName :: placeOf rel' <+: p →
      (copyIntoPayload t root d rel).1.tree.kind p = d.tree.kind p := by
    intro rel' hrel' hne p hp
    exact htouched.other prefixFree_staged ⟨_, hrel.allowlisted, rfl⟩ ⟨_, hrel'.allowlisted, rfl⟩
      (hrel.ne_of_ne hrel' hne) hp
  have hcopies : ∀ rel' ∈ copied, Copies t root (stepsOf rel') (copyIntoPayload t root d rel).1.tree
      (filesName :: placeOf rel') := by
    intro rel' hrel'
    refine (h.copies rel' hrel').of_same (hother rel' (h.exported rel' hrel') ?_)
    rintro rfl
    exact hnew hrel'
  have hfresh : ∀ rel', Exported rel' → rel' ∉ copied → rel' ≠ rel →
      (copyIntoPayload t root d rel).1.tree.kind (filesName :: placeOf rel') = none ∨
        ¬ Fits t root rel' := by
    intro rel' hrel' hnot hne
    rw [hother rel' hrel' hne _ (List.prefix_refl _)]
    exact h.fresh rel' hrel' hnot
  unfold Kyth.Transfer.exportPath
  cases hcopy : copyIntoPayload t root d rel with
  | mk d' ok =>
    rw [hcopy] at hready hlinks hbelow hcopies hfresh
    cases ok with
    | true =>
      have hnone : d.tree.kind (filesName :: placeOf rel) = none :=
        (h.fresh rel hrel hnew).resolve_right fun hnot => hnot (fits_of_copyIntoPayload hcopy)
      refine ⟨hready, hlinks, hbelow, ?_, ?_, fun rel' hrel' hnot => ?_, ?_⟩
      · simpa [or_imp, forall_and] using ⟨h.exported, hrel⟩
      · intro rel' hmem
        obtain hmem | hmem := List.mem_append.1 hmem
        · exact hcopies rel' hmem
        · rw [List.mem_singleton.1 hmem]
          exact copyIntoPayload_copies hrel h.ready h.links hnone hcopy
      · rw [List.mem_append, not_or, List.mem_singleton] at hnot
        exact hfresh rel' hrel' hnot.1 hnot.2
      · exact List.nodup_append.2 ⟨h.nodup, by simp, fun a ha b hb => by
          rw [List.mem_singleton.1 hb]
          rintro rfl
          exact hnew ha⟩
    | false =>
      refine ⟨hready, hlinks, hbelow, h.exported, hcopies, fun rel' hrel' hnot => ?_, h.nodup⟩
      by_cases hne : rel' = rel
      · subst hne
        refine .inr fun hfits => ?_
        -- a path that fits would have been copied to its free target
        have hnone := (h.fresh rel' hrel' hnew).resolve_right (not_not_intro hfits)
        obtain ⟨d'', heq, -⟩ := copyIntoPayload_spec hrel' h.ready h.links hnone hfits.1 hfits.2
        rw [hcopy] at heq
        cases heq
      · exact hfresh rel' hrel' hnot hne

/-- A new path is copied if it can be. -/
theorem Exports.mem_exportPath {state : Disk C × List String} (h : Exports t root state)
    (hrel : Exported rel) (hnew : rel ∉ state.2) (rel' : String) :
    rel' ∈ (Kyth.Transfer.exportPath t root state rel).2 ↔
      rel' ∈ state.2 ∨ rel' = rel ∧ Fits t root rel := by
  unfold Kyth.Transfer.exportPath
  cases hcopy : copyIntoPayload t root state.1 rel with
  | mk d' ok =>
    cases ok with
    | true => simp [fits_of_copyIntoPayload hcopy]
    | false =>
      have hnot : ¬ Fits t root rel := by
        intro hfits
        have hnone := (h.fresh rel hrel hnew).resolve_right (not_not_intro hfits)
        obtain ⟨d'', heq, -⟩ := copyIntoPayload_spec hrel h.ready h.links hnone hfits.1 hfits.2
        rw [hcopy] at heq
        cases heq
      simp [hnot]

/-- The paths are copied one after another, each once. -/
theorem Exports.foldl {state : Disk C × List String} (h : Exports t root state) (rels : List String)
    (hrels : ∀ rel ∈ rels, Exported rel) :
    Exports t root (rels.foldl (exportLauncher t root) state) ∧
      ∀ rel, rel ∈ (rels.foldl (exportLauncher t root) state).2 ↔
        rel ∈ state.2 ∨ rel ∈ rels ∧ (rel ∈ state.2 ∨ Fits t root rel) := by
  induction rels generalizing state with
  | nil => exact ⟨h, by simp⟩
  | cons rel rels ih =>
    have hrest : ∀ rel' ∈ rels, Exported rel' := fun rel' hrel' => hrels rel' (by simp [hrel'])
    rw [List.foldl_cons]
    by_cases hmem : rel ∈ state.2
    · have hskip : exportLauncher t root state rel = state := if_pos (by simpa using hmem)
      obtain ⟨hexports, hiff⟩ := ih h hrest
      rw [hskip]
      refine ⟨hexports, fun rel' => ?_⟩
      rw [hiff, List.mem_cons]
      grind
    · have hcopy : exportLauncher t root state rel = Kyth.Transfer.exportPath t root state rel :=
        if_neg (by simpa using hmem)
      obtain ⟨hexports, hiff⟩ := ih (h.exportPath (hrels rel (by simp)) hmem) hrest
      rw [hcopy]
      refine ⟨hexports, fun rel' => ?_⟩
      rw [hiff, h.mem_exportPath (hrels rel (by simp)) hmem, List.mem_cons]
      grind

/-- Where no path is copied twice, the loops are the same. -/
theorem foldl_exportPath {rels : List String} {state : Disk C × List String} (hnodup : rels.Nodup)
    (hnew : ∀ rel ∈ rels, rel ∉ state.2) :
    rels.foldl (exportPath t root) state = rels.foldl (exportLauncher t root) state := by
  induction rels generalizing state with
  | nil => rfl
  | cons rel rels ih =>
    obtain ⟨hnot, hnodup⟩ := List.nodup_cons.1 hnodup
    have hcopy : exportLauncher t root state rel = exportPath t root state rel :=
      if_neg (by simpa using hnew rel (by simp))
    rw [List.foldl_cons, List.foldl_cons, hcopy]
    refine ih hnodup fun rel' hrel' hmem => ?_
    have hmem' : rel' ∈ state.2 ∨ rel' = rel := by
      unfold exportPath at hmem
      split at hmem
      · simpa using hmem
      · exact .inl hmem
    obtain hmem' | rfl := hmem'
    · exact hnew rel' (by simp [hrel']) hmem'
    · exact hnot hrel'

/-- No name in the tree has a slash. -/
def Named (t : Tree FileName C) : Prop := ∀ p n, t.kind (p ++ [n]) ≠ none → (47 : UInt8) ∉ n

theorem exported_desktopEntryRels (hnamed : Named t) : ∀ rel ∈ desktopEntryRels t root, Exported rel := by
  intro rel hrel
  unfold desktopEntryRels at hrel
  cases hnames : t.readDir root (stepsOf ".local/share/applications") with
  | none =>
    rw [hnames] at hrel
    cases hrel
  | some names =>
    rw [hnames] at hrel
    dsimp only at hrel
    rw [List.mem_insertionSort] at hrel
    obtain ⟨name, hname, rfl⟩ := List.mem_map.1 hrel
    obtain ⟨hname, hlauncher⟩ := List.mem_filter.1 hname
    obtain ⟨bytes, hbytes, rfl⟩ := List.mem_map.1 hname
    refine .inr ⟨_, hlauncher, slash_notMem_toStringLossy ?_, rfl⟩
    unfold readDir at hnames
    split at hnames
    · cases hnames
    · split_ifs at hnames
      rw [← Option.some.inj hnames, mem_children] at hbytes
      exact hnamed _ _ hbytes

/-- The manifest of an export names the paths that can be copied, and each is copied. -/
theorem exports_stageFiles (hnamed : Named t) (root : Place FileName) :
    Exports t root (stageFiles t root) ∧ ∀ rel, rel ∈ (stageFiles t root).2 ↔
      rel ∈ configPaths ++ desktopEntryRels t root ∧ Fits t root rel := by
  have hloops : (desktopEntryRels t root).foldl (exportLauncher t root)
        (configPaths.foldl (exportPath t root) ({ tree := Tree.empty }, [])) =
      (configPaths ++ desktopEntryRels t root).foldl (exportLauncher t root)
        ({ tree := Tree.empty }, []) := by
    rw [List.foldl_append, foldl_exportPath (by decide) (by simp)]
  obtain ⟨hall, hiff⟩ := (exports_nil t root).foldl (configPaths ++ desktopEntryRels t root)
    fun rel hrel => (List.mem_append.1 hrel).elim (fun h => .inl h) (exported_desktopEntryRels hnamed rel)
  rw [← hloops] at hall hiff
  have hmem : ∀ rel, rel ∈ (stageFiles t root).2 ↔
      rel ∈ ((desktopEntryRels t root).foldl (exportLauncher t root)
        (configPaths.foldl (exportPath t root) ({ tree := Tree.empty }, []))).2 :=
    fun rel => List.mem_insertionSort textLe
  refine ⟨⟨hall.ready, hall.links, hall.below, fun rel hrel => hall.exported rel ((hmem rel).1 hrel),
    fun rel hrel => hall.copies rel ((hmem rel).1 hrel),
    fun rel hrel hnot => hall.fresh rel hrel fun h => hnot ((hmem rel).2 h),
    (List.perm_insertionSort textLe _).nodup_iff.2 hall.nodup⟩, fun rel => ?_⟩
  rw [hmem, hiff]
  simp

/-! ### The payload -/

/-- A payload has what a tree has at a place: files, and directories with the entries of the tree. -/
inductive Unpacked (staged : Tree FileName C) : Place FileName → Payload C → Prop
  | file {p : Place FileName} {content : C} (h : staged.kind p = some (.file content)) :
      Unpacked staged p (.file content)
  | dir {p : Place FileName} {entries : List (FileName × Payload C)} (h : staged.kind p = some .dir)
      (hnodup : (entries.map Prod.fst).Nodup)
      (hnames : ∀ n, staged.kind (p ++ [n]) ≠ none → n ∈ entries.map Prod.fst)
      (hentries : ∀ entry ∈ entries, Unpacked staged (p ++ [entry.1]) entry.2) :
      Unpacked staged p (.dir entries)

variable {staged : Tree FileName C} {node : Payload C} {p : Place FileName}

theorem Unpacked.ne_none (h : Unpacked staged p node) : staged.kind p ≠ none := by
  cases h with
  | file h => rw [h]; simp
  | dir h => rw [h]; simp

theorem lookup_of_mem {α β : Type} [BEq α] [LawfulBEq α] {l : List (α × β)} {a : α} {b : β}
    (hnodup : (l.map Prod.fst).Nodup) (h : (a, b) ∈ l) : l.lookup a = some b := by
  obtain ⟨before, after, rfl⟩ := List.append_of_mem h
  refine List.lookup_eq_some_iff.2 ⟨before, after, rfl, fun e he => ?_⟩
  rw [bne_iff_ne]
  rintro rfl
  rw [List.map_append, List.nodup_append] at hnodup
  exact hnodup.2.2 e.1 (List.mem_map_of_mem he) e.1 (by simp) rfl

theorem mem_of_lookup {α β : Type} [BEq α] [LawfulBEq α] {l : List (α × β)} {a : α} {b : β}
    (h : l.lookup a = some b) : (a, b) ∈ l := by
  obtain ⟨before, after, rfl, -⟩ := List.lookup_eq_some_iff.1 h
  simp

/-- An entry of the payload is found at the place where the tree has it. -/
theorem Unpacked.get (h : Unpacked staged p node) (names : Place FileName)
    (hkind : staged.kind (p ++ names) ≠ none) :
    ∃ node', node.get names = some node' ∧ Unpacked staged (p ++ names) node' := by
  induction names generalizing p node with
  | nil => exact ⟨node, by cases node <;> rfl, by rwa [List.append_nil]⟩
  | cons n names ih =>
    rw [List.append_cons] at hkind ⊢
    have hchild : staged.kind (p ++ [n]) ≠ none := fun hnone =>
      hkind (none_of_prefix_none hnone (List.prefix_append _ _))
    cases h with
    | file h => exact absurd (dir_of_child hchild) (by rw [h]; simp)
    | dir h hnodup hnames hentries =>
      obtain ⟨⟨n', node'⟩, hmem, rfl⟩ := List.mem_map.1 (hnames n hchild)
      obtain ⟨found, hget, hfound⟩ := ih (hentries _ hmem) hkind
      refine ⟨found, ?_, hfound⟩
      rw [Payload.get, lookup_of_mem hnodup hmem]
      exact hget

/-- The way to a place of the tree is a way of directories in the payload. -/
theorem Unpacked.chain (h : Unpacked staged p node) {names : Place FileName}
    (hdirs : ∀ q, q <+: names → staged.kind (p ++ q) = some .dir) : node.chain names = true := by
  induction names generalizing p node with
  | nil =>
    cases h with
    | file h => simpa [h] using hdirs [] (List.prefix_refl _)
    | dir h => rfl
  | cons n names ih =>
    cases h with
    | file h => simpa [h] using hdirs [] List.nil_prefix
    | dir h hnodup hnames hentries =>
      rw [Payload.chain]
      cases hlookup : List.lookup n _ with
      | none => rfl
      | some node' =>
        have hmem := mem_of_lookup hlookup
        refine ih (hentries _ hmem) fun q hq => ?_
        rw [← List.append_cons]
        exact hdirs (n :: q) (List.cons_prefix_cons.2 ⟨rfl, hq⟩)

/-! ### Restoring one entry -/

theorem copyEntries_eq (entries : List (FileName × Payload C)) (d : Disk C) (root : Place FileName)
    (steps : List (Step FileName)) :
    copyEntries entries d root steps =
      eachEntry (fun d entry => copyNode entry.2 d root (steps ++ [.down entry.1])) entries d := by
  induction entries generalizing d with
  | nil => rfl
  | cons entry entries ih =>
    rw [copyEntries, eachEntry]
    cases copyNode entry.2 d root (steps ++ [.down entry.1]) with
    | mk d' ok =>
      cases ok with
      | false => rfl
      | true => exact ih d'

/-- Nothing is removed where nothing is. -/
theorem removeLink_of_none {d : Disk C} {steps : List (Step FileName)} {n : FileName}
    (hleads : Leads d.tree root steps) (hnone : d.tree.kind (root ++ spelled steps ++ [n]) = none) :
    d.removeLink root (steps ++ [.down n]) = some d := by
  have hlink (target : Target FileName) :
      d.tree.kind (root ++ spelled steps ++ [n]) ≠ some (.link target) := by
    rw [hnone]
    simp
  have hlstat : d.tree.lstat root (steps ++ [.down n]) = none := by
    rw [lstat, hleads.walk_down here_nil hlink, if_pos (.inl rfl), Option.bind_some, hnone]
  rw [Disk.removeLink, hlstat]
  rfl

/-- A missing directory is made, and its entries are copied. -/
theorem copyNode_dir (entries : List (FileName × Payload C)) {d : Disk C} {steps : List (Step FileName)}
    {n : FileName} (hleads : Leads d.tree root steps)
    (hnone : d.tree.kind (root ++ spelled steps ++ [n]) = none) :
    ∃ d₁, copyNode (.dir entries) d root (steps ++ [.down n]) =
        copyEntries entries d₁ root (steps ++ [.down n]) ∧
      Within (fun x => x = root ++ spelled steps ++ [n]) d d₁ ∧
      d₁.tree.kind (root ++ spelled steps ++ [n]) = some .dir := by
  have hlink (target : Target FileName) :
      d.tree.kind (root ++ spelled steps ++ [n]) ≠ some (.link target) := by
    rw [hnone]
    simp
  have hstat : d.tree.stat root (steps ++ [.down n]) = none := by
    rw [stat, hleads.walk_down here_nil hlink, if_pos (.inl rfl), Option.bind_some, hnone]
  have hspelled : spelled (steps ++ [.down n]) = spelled steps ++ [n] := by
    rw [spelled_append, spelled_down here_nil]
  obtain ⟨d₁, heq, hwithin, hdir⟩ := createDirAll_missing [] hleads.dirs hnone
  have hcreate : d.createDirAll root [] (spelled (steps ++ [.down n])) = (d₁, true) := by
    rw [hspelled, createDirAll_append [] (spelled steps) hleads.dirs]
    exact heq
  refine ⟨d₁, ?_, hwithin, hdir⟩
  rw [copyNode, Disk.copyDirRecursive, removeLink_of_none hleads hnone]
  simp only [hstat, Option.isSome_none, Bool.false_eq_true, if_false, hcreate]

/-- An entry of the payload that is copied to a free place of a directory looks like the tree. -/
theorem copyNode_unpacked (h : Unpacked staged p node) {d : Disk C} {steps : List (Step FileName)}
    {n : FileName} (hleads : Leads d.tree root steps)
    (hnone : d.tree.kind (root ++ spelled steps ++ [n]) = none) :
    ∃ d', copyNode node d root (steps ++ [.down n]) = (d', true) ∧
      Below (root ++ spelled steps ++ [n]) d d' ∧
      ∀ q, d'.tree.kind (root ++ spelled steps ++ n :: q) = staged.kind (p ++ q) := by
  induction h generalizing d steps n with
  | @file p content h =>
    obtain ⟨d', hcopy, hbelow, hkind⟩ := copy_spec hleads hnone content
    refine ⟨d', ?_, hbelow, fun q => ?_⟩
    · rw [copyNode, Disk.copyFileNofollow, removeLink_of_none hleads hnone]
      exact hcopy
    · cases q with
      | nil => rw [List.append_nil, h, hkind]
      | cons c q =>
        have hcopied : d'.tree.kind (root ++ spelled steps ++ n :: c :: q) = none := by
          rw [List.append_cons]
          exact none_of_prefix (by rw [hkind]; simp) (List.prefix_append _ _) (by simp)
        have hstaged : staged.kind (p ++ c :: q) = none :=
          none_of_prefix (by rw [h]; simp) (List.prefix_append _ _) (by simp)
        rw [hcopied, hstaged]
  | @dir p entries h hnodup hnames hentries ih =>
    obtain ⟨d₁, heq, hwithin, hdir⟩ := copyNode_dir entries hleads hnone
    have hbelow : Below (root ++ spelled steps ++ [n]) d d₁ := by
      refine hwithin.mono ?_
      rintro x rfl
      exact List.prefix_refl _
    have hgone (m : FileName) : d₁.tree.kind (root ++ spelled steps ++ [n] ++ [m]) = none := by
      rw [hwithin.same _ (by simp)]
      exact none_of_prefix_none hnone (List.prefix_append _ _)
    have hone : ∀ entry ∈ entries, ∀ d : Disk C, Leads d.tree root steps →
        d.tree.kind (root ++ spelled steps ++ [n]) = some .dir →
        d.tree.kind (root ++ spelled steps ++ [n] ++ [entry.1]) = none →
        ∃ d', copyNode entry.2 d root (steps ++ [.down n] ++ [.down entry.1]) = (d', true) ∧
          Below (root ++ spelled steps ++ [n] ++ [entry.1]) d d' ∧
          ∀ q, d'.tree.kind (root ++ spelled steps ++ [n] ++ entry.1 :: q) =
            staged.kind (p ++ [entry.1] ++ q) := by
      intro entry hentry d hleads hdir hnone
      have hleads' := hleads.concat here_nil hdir
      have hcopied := ih entry hentry hleads' (n := entry.1)
        (by rwa [spelled_append, spelled_down here_nil, ← List.append_assoc])
      rwa [spelled_append, spelled_down here_nil, ← List.append_assoc] at hcopied
    have hkeeps : ∀ d d' : Disk C, Leads d.tree root steps → Below (root ++ spelled steps ++ [n]) d d' →
        Leads d'.tree root steps := fun _ _ h h' => h.of_below h'
    have hsucceeds : ∀ entry ∈ entries, ∀ d : Disk C, Leads d.tree root steps →
        d.tree.kind (root ++ spelled steps ++ [n]) = some .dir →
        d.tree.kind (root ++ spelled steps ++ [n] ++ [entry.1]) = none →
        ∃ d', copyNode entry.2 d root (steps ++ [.down n] ++ [.down entry.1]) = (d', true) ∧
          Below (root ++ spelled steps ++ [n] ++ [entry.1]) d d' ∧
          ∀ q (content : C), False →
            d'.tree.kind (root ++ spelled steps ++ [n] ++ entry.1 :: q) = some (.file content) := by
      intro entry hentry d hleads hdir hnone
      obtain ⟨d', hcopy, hbelow, -⟩ := hone entry hentry d hleads hdir hnone
      exact ⟨d', hcopy, hbelow, fun _ _ h => h.elim⟩
    obtain ⟨d', hloop, hwithin', -⟩ := eachEntry_spec Prod.fst (fun d : Disk C => Leads d.tree root steps)
      hkeeps hsucceeds hnodup (hleads.of_below hbelow) hdir fun entry _ => hgone entry.1
    obtain ⟨-, hdone⟩ := eachEntry_done Prod.fst
      (fun entry d => ∀ q, d.tree.kind (root ++ spelled steps ++ [n] ++ entry.1 :: q) =
        staged.kind (p ++ [entry.1] ++ q)) (fun d : Disk C => Leads d.tree root steps) hkeeps
      (fun entry d d' hsame hentry q => by
        rw [hsame _ ((List.prefix_append_right_inj _).2 (List.cons_prefix_cons.2 ⟨rfl, List.nil_prefix⟩)),
          hentry q])
      (fun entry hentry d d' hleads hdir hnone hcopy => by
        obtain ⟨d'', hcopy', hrest⟩ := hone entry hentry d hleads hdir hnone
        rw [hcopy, Prod.mk.injEq] at hcopy'
        obtain ⟨rfl, -⟩ := hcopy'
        exact hrest)
      hnodup (hleads.of_below hbelow) hdir (fun entry _ => hgone entry.1) hloop
    refine ⟨d', heq.trans ((copyEntries_eq _ _ _ _).trans hloop), hbelow.trans (hwithin'.mono ?_),
      fun q => ?_⟩
    · rintro x ⟨entry, -, hx⟩
      exact (List.prefix_append _ _).trans hx
    · cases q with
      | nil =>
        rw [List.append_nil, h, hwithin'.same, hdir]
        rintro ⟨entry, -, hpre⟩
        simpa using hpre.length_le
      | cons m q =>
        rw [List.append_cons]
        by_cases hm : m ∈ entries.map Prod.fst
        · obtain ⟨entry, hentry, rfl⟩ := List.mem_map.1 hm
          rw [hdone entry hentry q, ← List.append_cons]
        · -- a name that the tree does not have is not made
          have hstaged : staged.kind (p ++ m :: q) = none := by
            rw [List.append_cons]
            exact none_of_prefix_none (not_not.1 fun hne => hm (hnames m hne)) (List.prefix_append _ _)
          rw [hstaged, hwithin'.same]
          · exact none_of_prefix_none (hgone m)
              ((List.prefix_append_right_inj _).2 (List.cons_prefix_cons.2 ⟨rfl, List.nil_prefix⟩))
          · rintro ⟨entry, hentry, hpre⟩
            rw [List.prefix_append_right_inj, List.cons_prefix_cons] at hpre
            exact hm (hpre.1 ▸ List.mem_map_of_mem hentry)

/-! ### Restoring the paths of a manifest -/

theorem not_endsOpen (hrel : Exported rel) : ¬ EndsOpen rel := by
  unfold EndsOpen
  rw [hrel.steps, List.getLast?_map]
  cases (placeOf rel).getLast? <;> simp

theorem source_of_get {files : Payload C} (hrel : Exported rel) (h : files.get (placeOf rel) = some node) :
    files.source rel = some node := by
  unfold Payload.source
  rw [h]
  cases node with
  | dir entries => rfl
  | file content => exact if_neg (not_endsOpen hrel)
  | special => exact if_neg (not_endsOpen hrel)

/-- A path of the manifest is restored to its free place. -/
theorem restorePath_unpacked {files : Payload C} (hrel : Exported rel)
    (hfiles : Unpacked staged [filesName] files) (hstaged : staged.kind (filesName :: placeOf rel) ≠ none)
    (hroot : d.tree.kind root = some .dir) (hready : Ready Allowlisted root d)
    (hnone : d.tree.kind (root ++ placeOf rel) = none) :
    ∃ d', restorePath files (some root) d rel = (d', true) ∧ Touched root (placeOf rel) d d' ∧
      ∀ q, d'.tree.kind (root ++ placeOf rel ++ q) = staged.kind (filesName :: placeOf rel ++ q) := by
  have hallow := hrel.allowlisted
  have hshort : ∀ q, q <+: (placeOf rel).dropLast → q <+: placeOf rel ∧ q ≠ placeOf rel := by
    intro q hq
    refine ⟨hq.trans (List.dropLast_prefix _), ?_⟩
    rintro rfl
    have hle := hq.length_le
    have hpos := List.length_pos_iff.2 hallow.ne_nil
    rw [List.length_dropLast] at hle
    omega
  have hchain : files.chain (placeOf rel).dropLast = true := by
    refine hfiles.chain fun q hq => ?_
    obtain ⟨hpre, hne⟩ := hshort q hq
    exact dir_of_prefix hstaged (List.cons_prefix_cons.2 ⟨rfl, hpre⟩) (by simpa using hne)
  have hroots : ∀ q, q <+: ([] : Place FileName) → d.tree.kind (root ++ q) = some .dir := by
    intro q hq
    rw [List.prefix_nil.1 hq, List.append_nil]
    exact hroot
  have hfree : ∀ q, q <+: (placeOf rel).dropLast → q ≠ [] →
      d.tree.kind (root ++ ([] ++ q)) = none ∨ d.tree.kind (root ++ ([] ++ q)) = some .dir := by
    intro q hq _
    obtain ⟨hpre, hne⟩ := hshort q hq
    exact hready (placeOf rel) hallow q hpre hne
  have hsafe : safeDirectoryChain d.tree root (placeOf rel).dropLast = true := by
    rw [safeDirectoryChain, (obstacle_eq_none hroots).2 hfree]
    simpa using hroot
  obtain ⟨node, hget, hnode⟩ := hfiles.get (placeOf rel) hstaged
  obtain ⟨d₁, hcreate, hparents, hdirs⟩ := createDirAll_spec hroots hfree
  obtain ⟨P, n, hplace⟩ : ∃ P n, placeOf rel = P ++ [n] := by
    obtain hnil | ⟨P, n, heq⟩ := List.eq_nil_or_concat' (placeOf rel)
    · exact absurd hnil hallow.ne_nil
    · exact ⟨P, n, heq⟩
  have hleads : Leads d₁.tree root (P.map Step.down) := by
    refine leads_down fun q hq => hdirs q ?_
    rwa [hplace, List.dropLast_concat]
  have hnone₁ : d₁.tree.kind (root ++ spelled (P.map Step.down) ++ [n]) = none := by
    rw [spelled_map_down, List.append_assoc, ← hplace, hparents.same, hnone]
    rintro ⟨q, hq, -, heq⟩
    obtain ⟨-, hne⟩ := hshort q hq
    exact hne (List.append_cancel_left heq).symm
  obtain ⟨d', hcopy, hbelow, hkinds⟩ := copyNode_unpacked hnode hleads hnone₁
  rw [spelled_map_down, List.append_assoc, ← hplace] at hbelow
  refine ⟨d', ?_, Touched.of_below hallow.ne_nil hparents hdirs hbelow, fun q => ?_⟩
  · have hsteps : stepsOf rel = P.map Step.down ++ [.down n] := by rw [hrel.steps, hplace]; simp
    unfold restorePath
    rw [hrel.allowed, hchain, source_of_get hrel hget, hsteps]
    simp only [hsafe, hcreate, Bool.not_true, Bool.or_self, Bool.false_eq_true, if_false]
    exact hcopy
  · have hkind := hkinds q
    rw [spelled_map_down] at hkind
    rw [hplace] at hkind ⊢
    simpa using hkind

/-- Every path of a manifest is restored, and nothing else on the allowlist is touched. -/
theorem restoreFiles_unpacked {files : Payload C} (hfiles : Unpacked staged [filesName] files)
    {paths : List String} (hrels : ∀ rel ∈ paths, Exported rel) (hnodup : paths.Nodup)
    (hstaged : ∀ rel ∈ paths, staged.kind (filesName :: placeOf rel) ≠ none)
    (hroot : d.tree.kind root = some .dir) (hready : Ready Allowlisted root d)
    (hnone : ∀ rel ∈ paths, d.tree.kind (root ++ placeOf rel) = none) (count : ℕ) :
    ∃ d', paths.foldl (fun state path =>
        match restorePath files (some root) state.1 path with
        | (d', ok) => (d', state.2 + if ok then 1 else 0)) (d, count) = (d', count + paths.length) ∧
      (∀ rel ∈ paths, ∀ q,
        d'.tree.kind (root ++ placeOf rel ++ q) = staged.kind (filesName :: placeOf rel ++ q)) ∧
      ∀ rel, Exported rel → rel ∉ paths → ∀ p, root ++ placeOf rel <+: p →
        d'.tree.kind p = d.tree.kind p := by
  induction paths generalizing d count with
  | nil => exact ⟨d, rfl, by simp, fun _ _ _ _ _ => rfl⟩
  | cons rel paths ih =>
    obtain ⟨hnot, hnodup⟩ := List.nodup_cons.1 hnodup
    have hrel := hrels rel (by simp)
    obtain ⟨d₁, hrestore, htouched, hkinds⟩ :=
      restorePath_unpacked hrel hfiles (hstaged rel (by simp)) hroot hready (hnone rel (by simp))
    have hother : ∀ rel', Exported rel' → rel' ≠ rel → ∀ p, root ++ placeOf rel' <+: p →
        d₁.tree.kind p = d.tree.kind p := by
      intro rel' hrel' hne p hp
      refine htouched.other prefixFree_allowlisted hrel.allowlisted hrel'.allowlisted ?_ hp
      intro heq
      exact hne (hrel'.eq_of_prefix hrel (heq ▸ List.prefix_refl _))
    have hrest : ∀ rel' ∈ paths, rel' ≠ rel := by
      rintro rel' hmem rfl
      exact hnot hmem
    have hroot₁ : d₁.tree.kind root = some .dir := by
      obtain hdir | hsame := htouched.dirs [] List.nil_prefix
      · simpa using hdir
      · rw [List.append_nil] at hsame
        rw [hsame, hroot]
    obtain ⟨d', hloop, hdone, hframe⟩ := ih (fun rel' h => hrels rel' (by simp [h])) hnodup
      (fun rel' h => hstaged rel' (by simp [h])) hroot₁
      (htouched.ready prefixFree_allowlisted hrel.allowlisted hready)
      (fun rel' h => by
        rw [hother rel' (hrels rel' (by simp [h])) (hrest rel' h) _ (List.prefix_refl _)]
        exact hnone rel' (by simp [h]))
      (count + 1)
    refine ⟨d', ?_, fun rel' hmem q => ?_, fun rel' hrel' hmem p hp => ?_⟩
    · rw [List.foldl_cons, hrestore, List.length_cons, Nat.add_comm paths.length 1, ← Nat.add_assoc]
      exact hloop
    · obtain rfl | hmem := List.mem_cons.1 hmem
      · rw [hframe rel' hrel hnot _ (List.prefix_append _ _)]
        exact hkinds q
      · exact hdone rel' hmem q
    · rw [List.mem_cons, not_or] at hmem
      rw [hframe rel' hrel' hmem.2 p hp, hother rel' hrel' hmem.1 p hp]

/-! ### The manifest -/

theorem mapM_map_some {α β : Type} (encode : α → β) (decode : β → Option α)
    (h : ∀ a, decode (encode a) = some a) (l : List α) : (l.map encode).mapM decode = some l := by
  induction l with
  | nil => rfl
  | cons a l ih =>
    rw [List.map_cons, List.mapM_cons, h, ih]
    rfl

theorem decodeFlatpak_encodeFlatpak (app : SetupFlatpak) : decodeFlatpak (encodeFlatpak app) = some app := by
  cases app
  rfl

/-- What `validate_manifest` reads from the manifest of an export. -/
def manifestOf (answers : Answers) (copied : List String) : SetupManifest where
  format := "KythOS setup transfer"
  version := 1
  created := answers.created
  hostname := answers.hostname
  flatpaks := answers.flatpaks
  defaultApps := answers.defaultApps
  cloudRemotes := answers.cloudRemotes
  copiedPaths := copied
  secretsExcluded := secretsExcluded

theorem validateManifest_eq_ok (display : Value → String) {fields : List (String × Value)}
    {copied : List String} {manifest : SetupManifest}
    (hformat : (fields.lookup "format").bind Value.asStr = some "KythOS setup transfer")
    (hversion : (fields.lookup "version").bind Value.asU64 = some 1)
    (hcopied : (fields.lookup "copied_paths").bind Value.asArray = some (copied.map Value.string))
    (hallowed : ∀ rel ∈ copied, isAllowedRestorePath rel = true) (hnodup : copied.Nodup)
    (hdecode : decodeManifest fields = some manifest) :
    validateManifest display (.object fields) = .ok manifest := by
  have hpaths : (copied.map Value.string).filterMap Value.asStr = copied := by
    rw [List.filterMap_map]
    exact List.filterMap_some
  have hall : (copied.map Value.string).all (fun path => path.asStr.any isAllowedRestorePath) = true := by
    rw [List.all_map, List.all_eq_true]
    exact hallowed
  unfold validateManifest
  simp only [hformat, hversion, hcopied, ne_eq, not_true_eq_false, if_false, hall, hpaths, hnodup, hdecode,
    Bool.not_true, Bool.false_eq_true]

/-- The manifest of an export is accepted and read back. -/
theorem validateManifest_manifestValue (display : Value → String) (answers : Answers) {copied : List String}
    (hexported : ∀ rel ∈ copied, Exported rel) (hnodup : copied.Nodup) :
    validateManifest display (manifestValue answers copied) = .ok (manifestOf answers copied) := by
  have hstrings (l : List String) : decodeList Value.asStr (.array (l.map Value.string)) = some l :=
    mapM_map_some Value.string Value.asStr (fun _ => rfl) l
  have hflatpaks : decodeList decodeFlatpak (.array (answers.flatpaks.map encodeFlatpak)) =
      some answers.flatpaks := mapM_map_some _ _ decodeFlatpak_encodeFlatpak _
  have hremotes : decodeList some (.array answers.cloudRemotes) = some answers.cloudRemotes := by
    simpa [decodeList] using mapM_map_some id some (fun _ => rfl) answers.cloudRemotes
  have hdefaults : decodeMap Value.asStr (.object (encodeMap Value.string answers.defaultApps)) =
      some answers.defaultApps := decodeMap_encodeMap _ fun _ _ _ => rfl
  refine validateManifest_eq_ok display (by simp [Value.asStr])
    (by simp [List.lookup_cons, Value.asU64, Value.nat, Number.asU64])
    (by simp [List.lookup_cons, Value.asArray]) (fun rel hrel => (hexported rel hrel).allowed) hnodup ?_
  unfold decodeManifest field
  simp [List.lookup_cons, hstrings, hflatpaks, hremotes, hdefaults, manifestOf, Value.asStr, Value.asU64,
    Value.nat, Number.asU64]

/-! ### The whole way -/

/-- The place of the manifest in an archive. -/
def manifestName : FileName := nameOf "manifest.json"

/-- `MAX_MANIFEST_BYTES`. -/
def maxManifestBytes : ℕ := 1024 * 1024

/-- The message about a manifest that cannot be read. -/
def missingManifest : String := "The setup archive manifest is missing or invalid."

/-- `load_manifest_from_payload`; `parse` is `serde_json::from_str` on the text of a file. -/
def loadManifestFromPayload (parse : Bytes → Option Value) (display : Value → String)
    (payload : Payload Bytes) : Except String SetupManifest :=
  match payload.get [manifestName] with
  | some (.file text) =>
      if maxManifestBytes < text.length then .error missingManifest
      else
        match parse text with
        | some value => validateManifest display value
        | none => .error missingManifest
  | _ => .error missingManifest

/-- `payload.join("files")`; if it is missing, no path of the manifest is restored. -/
def Payload.files (payload : Payload C) : Payload C := (payload.get [filesName]).getD .special

/-- `restore_setup` up to the files: the manifest, the disk after the restore and the number of restored
paths. -/
def restoreSetup (parse : Bytes → Option Value) (display : Value → String) (payload : Payload Bytes)
    (home : Option (Place FileName)) (d : Disk Bytes) : Except String (SetupManifest × Disk Bytes × ℕ) :=
  match loadManifestFromPayload parse display payload with
  | .ok manifest => .ok (manifest, restoreFiles payload.files home d manifest.copiedPaths)
  | .error message => .error message

/-- The manifest is written beside the settings. -/
theorem exportSetup_spec {t : Tree FileName Bytes} (hnamed : Named t) (toStringPretty : Value → String)
    (answers : Answers) (root : Place FileName) :
    ∃ d, exportSetup toStringPretty answers t root = (d, true) ∧
      d.tree.kind [manifestName] = some (.file (manifestText toStringPretty answers (stageFiles t root).2)) ∧
      ∀ q, d.tree.kind (filesName :: q) = (stageFiles t root).1.tree.kind (filesName :: q) := by
  obtain ⟨hexports, -⟩ := exports_stageFiles hnamed root
  have hother : filesName ≠ manifestName := by decide
  have hnone : (stageFiles t root).1.tree.kind ([] ++ spelled [] ++ [manifestName]) = none := by
    by_contra hkind
    exact hother (hexports.below manifestName [] hkind).symm
  obtain ⟨d, hcopy, hbelow, hkind⟩ := copy_spec (leads_place (kind_root _)) hnone
    (manifestText toStringPretty answers (stageFiles t root).2)
  refine ⟨d, hcopy, hkind, fun q => hbelow.same _ ?_⟩
  intro hpre
  exact hother (List.cons_prefix_cons.1 hpre).1.symm

/-- A home directory with a setting that is a link, and a directory of settings. -/
def sampleHome : Tree FileName Bytes :=
  ((((Tree.empty.mkdirs [] [nameOf "home", nameOf ".config", nameOf "MangoHud"]).write [nameOf "theme"]
    (.file [1])).write [nameOf "home", nameOf ".config", nameOf "kdeglobals"]
      (.link ⟨true, [.down (nameOf "theme")]⟩)).write
        [nameOf "home", nameOf ".config", nameOf "MangoHud", nameOf "MangoHud.conf"] (.file [2]))

def sampleAnswers : Answers where
  created := "2026-01-01T00:00:00+00:00"
  hostname := "kyth"
  flatpaks := []
  defaultApps := ∅
  cloudRemotes := []

def sampleText : String :=
  "\x7b\n  \"cloud_remotes\": [],\n  \"copied_paths\": [\n    \".config/MangoHud\",\n" ++
  "    \".config/kdeglobals\"\n  ],\n  \"created\": \"2026-01-01T00:00:00+00:00\",\n" ++
  "  \"default_apps\": \x7b\x7d,\n  \"flatpaks\": [],\n" ++
  "  \"format\": \"KythOS setup transfer\",\n  \"hostname\": \"kyth\",\n  \"secrets_excluded\": [\n" ++
  "    \"browser profiles and cookies\",\n    \"KWallet contents\",\n    \"rclone OAuth tokens\",\n" ++
  "    \"SMB passwords\"\n  ],\n  \"version\": 1\n\x7d"

def sampleArchive : Payload Bytes :=
  .dir [(filesName, .dir [(nameOf ".config", .dir [(nameOf "kdeglobals", .file [1]),
      (nameOf "MangoHud", .dir [(nameOf "MangoHud.conf", .file [2])])])]),
    (manifestName, .file (nameOf (sampleText ++ "\n")))]

theorem named_sampleHome : Named sampleHome := by
  have hall : ∀ e ∈ sampleHome.nodes, ∀ n ∈ e.1, (47 : UInt8) ∉ n := by decide
  intro p n hkind
  rw [← mem_children, children, List.mem_dedup, List.mem_filterMap] at hkind
  obtain ⟨e, he, hlast⟩ := hkind
  split_ifs at hlast
  exact hall e he n (List.mem_of_getLast? hlast)

/-- A directory of a payload has the entries of the tree if it has its children. -/
theorem unpacked_dir {entries : List (FileName × Payload C)} (h : staged.kind p = some .dir)
    (hnodup : (entries.map Prod.fst).Nodup) (hchildren : staged.children p ⊆ entries.map Prod.fst)
    (hentries : ∀ entry ∈ entries, Unpacked staged (p ++ [entry.1]) entry.2) :
    Unpacked staged p (.dir entries) :=
  .dir h hnodup (fun _ hkind => hchildren (mem_children.2 hkind)) hentries

/-- The staged directory of the sample. -/
def sampleStaged : Tree FileName Bytes :=
  (((Tree.empty.mkdirs [] [filesName, nameOf ".config"]).write
    [filesName, nameOf ".config", nameOf "kdeglobals"] (.file [1])).mkdir [filesName, nameOf ".config", nameOf "MangoHud"]).write
      [filesName, nameOf ".config", nameOf "MangoHud", nameOf "MangoHud.conf"] (.file [2]) |>.write
        [manifestName] (.file (nameOf (sampleText ++ "\n")))

/-- The files of the sample that are staged, without the manifest. -/
def sampleFiles : Tree FileName Bytes :=
  ((Tree.empty.mkdirs [] [filesName, nameOf ".config"]).write
    [filesName, nameOf ".config", nameOf "kdeglobals"] (.file [1])).mkdir [filesName, nameOf ".config", nameOf "MangoHud"] |>.write
      [filesName, nameOf ".config", nameOf "MangoHud", nameOf "MangoHud.conf"] (.file [2])

theorem staged_sampleHome :
    ((stageFiles sampleHome [nameOf "home"]).1.tree.nodes, (stageFiles sampleHome [nameOf "home"]).2) =
      (sampleFiles.nodes, [".config/MangoHud", ".config/kdeglobals"]) := by
  decide +kernel

/-- The paths of the sample that are copied. -/
theorem stageFiles_sampleHome :
    (stageFiles sampleHome [nameOf "home"]).2 = [".config/MangoHud", ".config/kdeglobals"] :=
  (Prod.mk.inj staged_sampleHome).2

theorem exportSetup_sampleHome :
    (exportSetup (fun _ => sampleText) sampleAnswers sampleHome [nameOf "home"]).1.tree = sampleStaged := by
  have htree : (stageFiles sampleHome [nameOf "home"]).1.tree = sampleFiles := by
    have hnodes := (Prod.mk.inj staged_sampleHome).1
    cases htree : (stageFiles sampleHome [nameOf "home"]).1.tree
    rw [htree] at hnodes
    cases hnodes
    rfl
  have hwalk : sampleFiles.walk true maxLinks [] [.down manifestName] = some [manifestName] := by
    decide
  have hfree : sampleFiles.kind [manifestName] = none := by decide
  unfold exportSetup Disk.copy
  dsimp only
  rw [htree, show nameOf "manifest.json" = manifestName from rfl, hwalk]
  dsimp only
  rw [hfree]
  rfl

theorem unpacked_sampleArchive : Unpacked sampleStaged [] sampleArchive := by
  -- the text of the manifest is long, so it is not evaluated
  have hmanifest : sampleStaged.kind [manifestName] = some (.file (nameOf (sampleText ++ "\n"))) := by
    change (sampleFiles.write [manifestName] _).kind [manifestName] = _
    rw [FileTree.Tree.kind_write (by decide), if_pos rfl]
  refine unpacked_dir rfl (by decide) (by decide) ?_
  simp only [List.forall_mem_cons, List.nil_append, List.not_mem_nil, false_implies, implies_true, and_true]
  refine ⟨unpacked_dir (by decide) (by decide) (by decide) ?_,
    .file hmanifest⟩
  simp only [List.forall_mem_cons, List.not_mem_nil, false_implies, implies_true, and_true]
  refine unpacked_dir (by decide) (by decide) (by decide) ?_
  simp only [List.forall_mem_cons, List.not_mem_nil, false_implies, implies_true, and_true]
  refine ⟨.file (by decide),
    unpacked_dir (by decide) (by decide) (by decide) ?_⟩
  simp only [List.forall_mem_cons, List.not_mem_nil, false_implies, implies_true, and_true]
  exact .file (by decide)

end Kyth.Transfer
