import Kyth.Fetch.Archive
import Mathlib.Data.List.Destutter

/-!
# What a failed extraction leaves behind

After a failed extraction nothing that was there before may be gone. The cleanup follows the listed paths
through directories that the archive itself has made, so a link in their place leads it elsewhere, and it
removes a parent directory that is empty whether or not the archive made it. `cleanup_keeps_iff` says that
nothing else can go wrong.
-/

namespace Kyth.Fetch

open Check FileTree FileTree.Tree Str

/-- A place above a member and below the destination. -/
def Parent (q parts : List String) : Prop := q <+: parts ∧ q ≠ [] ∧ q ≠ parts

variable {C : Type} {dest : Place String} {text : List String → String}
  {before left t t' : Tree String C} {members : List (List String)} {m q : List String}

/-! ### The checks before the extraction -/

/-- The member is free and its parents are directories, as far as they exist. -/
structure Free (dest : Place String) (t : Tree String C) (m : List String) : Prop where
  parents : ∀ q, Parent q m → t.kind (dest ++ q) = none ∨ t.kind (dest ++ q) = some .dir
  absent : t.kind (dest ++ m) = none

theorem plain_of_parents
    (h : ∀ q, Parent q m → t.kind (dest ++ q) = none ∨ t.kind (dest ++ q) = some .dir) :
    t.Plain dest m := by
  intro q hq hnil hne target hlink
  obtain hnone | hdir := h q ⟨hq, hnil, hne⟩
  · rw [hnone] at hlink
    cases hlink
  · rw [hdir] at hlink
    cases hlink

theorem passes_checkParents (hdest : t.kind dest = some .dir) {parents : List String} :
    Passes (checkParents dest text t parents) ↔
      ∀ q, q <+: parents → q ≠ [] →
        t.kind (dest ++ q) = none ∨ t.kind (dest ++ q) = some .dir := by
  have hobstacle : t.obstacle dest [] parents = none ↔ _ :=
    obstacle_eq_none fun q hq => by rw [List.prefix_nil.1 hq, List.append_nil, hdest]
  unfold checkParents
  cases hcases : t.obstacle dest [] parents with
  | none => exact iff_of_true (passes_ok _) (hobstacle.1 hcases)
  | some path =>
    refine iff_of_false (not_passes_error _) fun h => ?_
    rw [hobstacle.2 h] at hcases
    cases hcases

theorem parent_iff_dropLast : Parent q m ↔ q <+: m.dropLast ∧ q ≠ [] := by
  constructor
  · rintro ⟨⟨r, rfl⟩, hnil, hne⟩
    have hr : r ≠ [] := fun hr => hne (by rw [hr, List.append_nil])
    rw [List.dropLast_append_of_ne_nil hr]
    exact ⟨List.prefix_append _ _, hnil⟩
  · rintro ⟨hq, hnil⟩
    refine ⟨hq.trans (List.dropLast_prefix m), hnil, ?_⟩
    rintro rfl
    have := hq.length_le
    rw [List.length_dropLast] at this
    have := List.length_pos_iff.2 hnil
    omega

theorem passes_checkOutput (hdest : t.kind dest = some .dir) (hm : m ≠ []) :
    Passes (checkOutput dest text t m) ↔ Free dest t m := by
  have hparents : Passes (checkParents dest text t m.dropLast) ↔
      ∀ q, Parent q m → t.kind (dest ++ q) = none ∨ t.kind (dest ++ q) = some .dir := by
    rw [passes_checkParents hdest]
    simp only [parent_iff_dropLast, and_imp]
  rw [checkOutput, if_neg hm, passes_bind_const, hparents]
  constructor
  · rintro ⟨hplain, habsent⟩
    refine ⟨hplain, ?_⟩
    rw [passes_ite_throw, below, lstat_names (plain_of_parents hplain)] at habsent
    simpa using habsent.1
  · rintro ⟨hplain, habsent⟩
    refine ⟨hplain, ?_⟩
    rw [passes_ite_throw, below, lstat_names (plain_of_parents hplain), habsent]
    simp

theorem passes_checkOutputs (hdest : t.kind dest = some .dir) :
    Passes (checkOutputs dest text t members) ↔ ∀ m ∈ members, m ≠ [] → Free dest t m := by
  induction members with
  | nil => simp [checkOutputs]
  | cons m members ih =>
    rw [checkOutputs, passes_bind_const, ih, List.forall_mem_cons]
    refine and_congr_left fun _ => ?_
    by_cases hm : m = []
    · simp [hm, checkOutput]
    · rw [passes_checkOutput hdest hm]
      simp [hm]

/-! ### One removal -/

/-- A step of the first loop removes the place that the path leads to, or nothing. -/
theorem removeMember_inv (dest : Place String) (t : Tree String C) (m : List String) :
    removeMember dest t m = t ∨
      ∃ p, t.walk false maxLinks dest (below m) = some p ∧ p ≠ [] ∧ m ≠ [] ∧ t.kind p ≠ none ∧
        removeMember dest t m = t.remove p := by
  unfold removeMember
  split_ifs with hm
  · exact .inl rfl
  · cases hremove : t.removeDirAll dest (below m) with
    | none => exact .inl rfl
    | some t' =>
      obtain ⟨p, hwalk, hp, hkind, rfl⟩ := removeDirAll_eq_some.1 hremove
      exact .inr ⟨p, hwalk, hp, hm, by rw [hkind]; simp, rfl⟩
  · cases hremove : t.removeFile dest (below m) with
    | none => exact .inl rfl
    | some t' =>
      obtain ⟨p, hwalk, hkind, hdir, rfl⟩ := removeFile_eq_some.1 hremove
      refine .inr ⟨p, hwalk, ?_, hm, hkind, rfl⟩
      rintro rfl
      exact hdir (kind_root t)

theorem removeMember_sub (dest : Place String) (t : Tree String C) (m : List String) :
    (removeMember dest t m).Sub t := by
  obtain hsame | ⟨p, -, hp, -, -, hremove⟩ := removeMember_inv dest t m
  · rw [hsame]
    exact Sub.refl t
  · rw [hremove]
    exact remove_sub hp

/-- Without links on the way a step of the first loop removes the member, or nothing. -/
theorem removeMember_cases (hplain : t.Plain dest m) :
    removeMember dest t m = t ∨
      m ≠ [] ∧ t.kind (dest ++ m) ≠ none ∧ removeMember dest t m = t.remove (dest ++ m) := by
  obtain hsame | ⟨p, hwalk, -, hm, hkind, hremove⟩ := removeMember_inv dest t m
  · exact .inl hsame
  · obtain rfl := eq_of_walk_names hplain hwalk
    exact .inr ⟨hm, hkind, hremove⟩

/-- Without links on the way a step of the second loop removes an empty directory. -/
theorem removeDir_cases (hplain : t.Plain dest q) (h : t.removeDir dest (below q) = some t') :
    t.IsEmptyDir (dest ++ q) ∧ t' = t.remove (dest ++ q) := by
  obtain ⟨p, hwalk, -, hempty, rfl⟩ := removeDir_eq_some.1 h
  obtain rfl := eq_of_walk_names hplain hwalk
  exact ⟨hempty, rfl⟩

/-- What was there stays when a place is removed at which nothing was. -/
theorem sub_remove {p : Place String} (hsub : before.Sub t) (hp : p ≠ []) (hnone : before.kind p = none) :
    before.Sub (t.remove p) := by
  intro q k hk
  rw [kind_remove hp, if_neg, hsub q k hk]
  intro hprefix
  rw [none_of_prefix_none hnone hprefix] at hk
  cases hk

theorem mem_of_mem_removalOrder (hm : m ∈ removalOrder members) : m ∈ members :=
  (List.mem_insertionSort _).1 ((List.destutter_sublist _ _).subset hm)

/-! ### What the tool leaves -/

/-- A tree that the tool leaves: everything that was there, and new entries in the destination. Its new
links are at places of the given set; they may point anywhere. -/
structure Leaves (dest : Place String) (before left : Tree String C) (links : Set (List String)) :
    Prop where
  kept : before.Sub left
  inside : ∀ p, left.kind p ≠ none → before.kind p = none → dest <+: p
  link : ∀ q target, left.kind (dest ++ q) = some (.link target) → before.kind (dest ++ q) = none →
    q ∈ links

/-- No listed member lies below a free place at which the archive may have a link, and no parent of a
listed member was an empty directory. -/
structure Harmless (dest : Place String) (before : Tree String C) (links : Set (List String))
    (members : List (List String)) : Prop where
  unlinked : ∀ m ∈ members, ∀ q, Parent q m → before.kind (dest ++ q) = none → q ∉ links
  occupied : ∀ m ∈ members, ∀ q, Parent q m → ¬ before.IsEmptyDir (dest ++ q)

/-- A tool that leaves one new entry. -/
theorem leaves_write {links : Set (List String)} {kind : Kind String C}
    (hput : before.CanPut (dest ++ q)) (hnew : before.kind (dest ++ q) = none)
    (hlink : kind.isLink = true → q ∈ links) :
    Leaves dest before (before.write (dest ++ q) kind) links := by
  refine ⟨fun p k hk => ?_, fun p hp hp' => ?_, fun r target hr hr' => ?_⟩
  · rw [kind_write hput, if_neg, hk]
    rintro rfl
    rw [hnew] at hk
    cases hk
  · rw [kind_write hput] at hp
    split_ifs at hp with heq
    · rw [heq]
      exact List.prefix_append dest q
    · exact absurd hp' hp
  · rw [kind_write hput] at hr
    split_ifs at hr with heq
    · obtain rfl := List.append_cancel_left heq
      obtain rfl := Option.some.inj hr
      exact hlink rfl
    · rw [hr'] at hr
      cases hr

section Harmless

variable {links : Set (List String)}

/-- On the way to a listed member there are no links. -/
theorem Leaves.plain (hleaves : Leaves dest before left links)
    (hharmless : Harmless dest before links members) (hfree : Free dest before m) (hm : m ∈ members) :
    left.Plain dest m := by
  intro q hq hnil hne target hlink
  have hparent : Parent q m := ⟨hq, hnil, hne⟩
  obtain hnone | hdir := hfree.parents q hparent
  · exact hharmless.unlinked m hm q hparent hnone (hleaves.link q target hlink hnone)
  · rw [hleaves.kept _ _ hdir] at hlink
    cases hlink

theorem Parent.trans {r : List String} (hq : Parent q m) (hr : r <+: q) (hnil : r ≠ []) :
    Parent r m := by
  refine ⟨hr.trans hq.1, hnil, ?_⟩
  rintro rfl
  exact hq.2.2 (hq.1.eq_of_length_le hr.length_le)

/-- The first loop keeps what was there. -/
theorem sub_removeMember (hsub : before.Sub t) (hfree : m ≠ [] → Free dest before m)
    (hplain : t.Plain dest m) : before.Sub (removeMember dest t m) := by
  obtain hsame | ⟨hm, -, hremove⟩ := removeMember_cases hplain
  · rwa [hsame]
  · rw [hremove]
    exact sub_remove hsub (by simp [hm]) (hfree hm).absent

theorem plain_nil : t.Plain dest [] := fun _ hq hnil => absurd (List.prefix_nil.1 hq) hnil

theorem Parent.plain (hq : Parent q m) (hplain : t.Plain dest m) : t.Plain dest q :=
  fun r hr hnil _ => hplain r (hr.trans hq.1) hnil (hq.trans hr hnil).2.2

variable (hleaves : Leaves dest before left links) (hharmless : Harmless dest before links members)
  (hfree : ∀ m ∈ members, m ≠ [] → Free dest before m)

include hleaves hharmless hfree

theorem plain_of_mem (hm : m ∈ members) : left.Plain dest m := by
  by_cases hnil : m = []
  · rw [hnil]
    exact plain_nil
  · exact hleaves.plain hharmless (hfree m hm hnil) hm

/-- The first loop keeps what was there. -/
theorem keeps_members {order : List (List String)} (horder : ∀ m ∈ order, m ∈ members)
    (hsub : before.Sub t) (hleft : t.Sub left) :
    before.Sub (order.foldl (removeMember dest) t) ∧
      (order.foldl (removeMember dest) t).Sub left := by
  induction order generalizing t with
  | nil => exact ⟨hsub, hleft⟩
  | cons m order ih =>
    have hm := horder m List.mem_cons_self
    have hplain : t.Plain dest m := hleft.plain (plain_of_mem hleaves hharmless hfree hm)
    refine ih (fun m' hm' => horder m' (List.mem_cons_of_mem m hm')) ?_ ?_
    · exact sub_removeMember hsub (hfree m hm) hplain
    · exact (removeMember_sub dest t m).trans hleft

/-- The parents of a member that the second loop removes are not among what was there. -/
theorem keeps_parents (hm : m ∈ members) {parents : List String}
    (hparents : ∀ q, q <+: parents.reverse → q ≠ [] → Parent q m)
    (hsub : before.Sub t) (hleft : t.Sub left) :
    before.Sub (removeParents dest t parents) ∧ (removeParents dest t parents).Sub left := by
  induction parents generalizing t with
  | nil => exact ⟨hsub, hleft⟩
  | cons part parents ih =>
    rw [List.reverse_cons] at hparents
    rw [removeParents]
    cases hremove : t.removeDir dest (below (parents.reverse ++ [part])) with
    | none => exact ⟨hsub, hleft⟩
    | some t' =>
      have hparent : Parent (parents.reverse ++ [part]) m := hparents _ (List.prefix_refl _) (by simp)
      have hplain := hparent.plain (hleft.plain (plain_of_mem hleaves hharmless hfree hm))
      obtain ⟨hempty, rfl⟩ := removeDir_cases hplain hremove
      have hne : dest ++ (parents.reverse ++ [part]) ≠ [] := by simp
      refine ih (fun q hq => hparents q (hq.trans (List.prefix_append _ _))) ?_ ?_
      · refine sub_remove hsub hne ?_
        by_contra hbefore
        -- a directory that was there had an entry, which is still in it
        have hm' : m ≠ [] := fun hnil => by
          rw [hnil] at hparent
          exact hparent.2.1 (List.prefix_nil.1 hparent.1)
        have hdir := ((hfree m hm hm').parents _ hparent).resolve_left hbefore
        have hoccupied := hharmless.occupied m hm _ hparent
        rw [isEmptyDir_iff, not_and, not_forall] at hoccupied
        obtain ⟨n, hn⟩ := hoccupied hdir
        exact hn (hsub.none ((isEmptyDir_iff.1 hempty).2 n))
      · exact (remove_sub hne).trans hleft

/-- The cleanup keeps what was there. -/
theorem keeps_removeValidated : before.Sub (removeValidated dest left members) := by
  have horder : ∀ m ∈ removalOrder members, m ∈ members := fun m => mem_of_mem_removalOrder
  have hloop (list : List (List String)) (hlist : ∀ m ∈ list, m ∈ members) :
      ∀ t : Tree String C, before.Sub t → t.Sub left →
        before.Sub (list.foldl (fun t parts => removeParents dest t parts.dropLast.reverse) t) := by
    induction list with
    | nil => exact fun t hsub _ => hsub
    | cons m list ih =>
      intro t hsub hleft
      have hparents : ∀ q, q <+: m.dropLast.reverse.reverse → q ≠ [] → Parent q m := by
        intro q hq hnil
        rw [List.reverse_reverse] at hq
        exact parent_iff_dropLast.2 ⟨hq, hnil⟩
      have hkeeps := keeps_parents hleaves hharmless hfree (hlist m List.mem_cons_self) hparents hsub
        hleft
      exact ih (fun m' hm' => hlist m' (List.mem_cons_of_mem m hm')) _ hkeeps.1 hkeeps.2
  obtain ⟨hsub, hleft⟩ := keeps_members hleaves hharmless hfree horder hleaves.kept (Sub.refl left)
  exact hloop members (fun m hm => hm) _ hsub hleft

end Harmless

/-! ### The cleanup only removes -/

theorem removeParents_sub_self (t : Tree String C) (parents : List String) :
    (removeParents dest t parents).Sub t := by
  induction parents generalizing t with
  | nil => exact Sub.refl t
  | cons part parents ih =>
    rw [removeParents]
    cases hremove : t.removeDir dest (below (parents.reverse ++ [part])) with
    | none => exact Sub.refl t
    | some t' =>
      obtain ⟨p, -, hp, -, rfl⟩ := removeDir_eq_some.1 hremove
      exact (ih _).trans (remove_sub hp)

/-- A loop of removals only removes. -/
theorem foldl_sub {step : Tree String C → List String → Tree String C}
    (hstep : ∀ t m, (step t m).Sub t) (list : List (List String)) (t : Tree String C) :
    (list.foldl step t).Sub t := by
  induction list generalizing t with
  | nil => exact Sub.refl t
  | cons m list ih => exact (ih (step t m)).trans (hstep t m)

theorem removeValidated_sub_foldl :
    (removeValidated dest t members).Sub ((removalOrder members).foldl (removeMember dest) t) :=
  foldl_sub (fun t m => removeParents_sub_self t m.dropLast.reverse) members _

/-! ### A link on the way to a member -/

section Planted

variable {world : Tree String C} {k rest : List String} {o : String}

/-- The link at `k` and the directories above it are there. -/
structure Route (dest : Place String) (k : List String) (o : String) (t : Tree String C) : Prop where
  above : ∀ q, q <+: k → q ≠ k → t.kind (dest ++ q) = some .dir
  link : t.kind (dest ++ k) = some (.link ⟨true, [.down o]⟩)

/-- A member below the link is looked up in the directory that it points to. -/
theorem Route.walk (hroute : Route dest k o t) (hk : k ≠ []) (hrest : rest ≠ []) (follow : Bool) :
    t.walk follow maxLinks dest (below (k ++ rest)) = t.walk follow 39 [] (below (o :: rest)) := by
  have hwalk : t.walk follow (39 + 1) dest ((k ++ rest).map .down) = _ :=
    walk_link hrest (fun r hr _ hne => hroute.above r hr hne) hk hroute.link
  simpa [below, maxLinks] using hwalk

/-- Removing a place that is neither the link nor above it leaves the route as it is. -/
theorem Route.remove {p : Place String} (hroute : Route dest k o t) (hp : p ≠ [])
    (hnot : ¬ p <+: dest ++ k) : Route dest k o (t.remove p) := by
  have hkind (q : List String) (hq : q <+: k) : (t.remove p).kind (dest ++ q) = t.kind (dest ++ q) := by
    rw [kind_remove hp, if_neg]
    exact fun h => hnot (h.trans ((List.prefix_append_right_inj dest).2 hq))
  refine ⟨fun q hq hne => ?_, ?_⟩
  · rw [hkind q hq, hroute.above q hq hne]
  · rw [hkind k (List.prefix_refl k), hroute.link]

/-- A tree with a link below the destination that points to a directory of its own outside, in which there
is only the path `rest`. -/
structure Planted (dest : Place String) (members : List (List String)) (k rest : List String)
    (o : String) (left : Tree String C) : Prop where
  route : Route dest k o left
  outside : ∀ q, q <+: rest → left.kind (o :: q) = some .dir
  only : ∀ q, left.kind (o :: q) ≠ none → q <+: rest
  plain : ∀ m ∈ members, ¬ k <+: m → left.Plain dest m
  apart : ∀ p, ¬ (o :: p) <+: dest ++ k

theorem Planted.plain_outside (hplanted : Planted dest members k rest o left) (hsub : t.Sub left)
    (r : List String) : t.Plain [] (o :: r) := by
  refine hsub.plain fun q hq hnil _ target hlink => ?_
  obtain ⟨q, rfl, -⟩ := exists_cons_of_prefix hq hnil
  rw [List.nil_append] at hlink
  rw [hplanted.outside q (hplanted.only q (by rw [hlink]; simp))] at hlink
  cases hlink

/-- The members that are removed before the one below the link do not break the route. -/
theorem Planted.route_removeMember (hplanted : Planted dest members k rest o left) (hk : k ≠ [])
    (hsub : t.Sub left) (hroute : Route dest k o t) (hm : m ∈ members) (hlength : k.length < m.length) :
    Route dest k o (removeMember dest t m) := by
  obtain hsame | ⟨p, hwalk, hp, -, -, hremove⟩ := removeMember_inv dest t m
  · rwa [hsame]
  · rw [hremove]
    refine hroute.remove hp fun hprefix => ?_
    by_cases hbelow : k <+: m
    · obtain ⟨r, rfl⟩ := hbelow
      have hr : r ≠ [] := by
        rintro rfl
        simp at hlength
      rw [hroute.walk hk hr] at hwalk
      obtain rfl := eq_of_walk_names (hplanted.plain_outside hsub r) hwalk
      exact hplanted.apart r hprefix
    · obtain rfl := eq_of_walk_names (hsub.plain (hplanted.plain m hm hbelow)) hwalk
      have hle := ((List.prefix_append_right_inj dest).1 hprefix).length_le
      omega

/-- The member below the link is removed outside. -/
theorem Planted.removes (hplanted : Planted dest members k rest o left) (hk : k ≠ []) (hrest : rest ≠ [])
    (hsub : t.Sub left) (hroute : Route dest k o t) :
    (removeMember dest t (k ++ rest)).kind (o :: rest) = none := by
  by_cases hgone : t.kind (o :: rest) = none
  · exact (removeMember_sub dest t _).none hgone
  · obtain ⟨kind, hkind⟩ := Option.ne_none_iff_exists'.1 hgone
    have hdir : t.kind (o :: rest) = some .dir := by
      rw [hkind, ← hsub _ _ hkind, hplanted.outside rest (List.prefix_refl rest)]
    have hwalk (follow : Bool) : t.walk follow maxLinks dest (below (k ++ rest)) = some (o :: rest) := by
      rw [hroute.walk hk hrest]
      refine walk_names 39 (fun q hq _ hne => dir_of_prefix hgone hq hne) fun _ target hlink => ?_
      rw [List.nil_append, hdir] at hlink
      cases hlink
    have hstat : t.stat dest (below (k ++ rest)) = some .dir := by
      rw [Tree.stat, hwalk, Option.bind_some, hdir]
    have hlstat : t.lstat dest (below (k ++ rest)) = some .dir := by
      rw [Tree.lstat, hwalk, Option.bind_some, hdir]
    have hremove : t.removeDirAll dest (below (k ++ rest)) = some (t.remove (o :: rest)) :=
      removeDirAll_eq_some.2 ⟨_, hwalk false, by simp, hdir, rfl⟩
    have hnil : k ++ rest ≠ [] := by simp [hk]
    rw [removeMember, if_neg hnil, if_pos ⟨hstat, by rw [hlstat]; rfl⟩, hremove, Option.getD_some,
      kind_remove (by simp), if_pos (List.prefix_refl _)]

theorem removalOrder_eq (hnodup : members.Nodup) :
    removalOrder members = members.insertionSort AtLeastAsDeep := by
  have hnodup' : (members.insertionSort AtLeastAsDeep).Nodup :=
    (List.perm_insertionSort _ _).nodup_iff.2 hnodup
  rw [removalOrder, List.destutter_of_isChain]
  exact List.Pairwise.isChain hnodup'

/-- The members are removed in the order of their lengths. -/
theorem pairwise_removalOrder (hnodup : members.Nodup) :
    (removalOrder members).Pairwise AtLeastAsDeep := by
  rw [removalOrder_eq hnodup]
  exact List.pairwise_insertionSort _ members

/-- The cleanup removes what is outside at the end of the path. -/
theorem Planted.removeValidated_none (hplanted : Planted dest members k rest o left) (hk : k ≠ [])
    (hrest : rest ≠ []) (hnodup : members.Nodup) (hm : k ++ rest ∈ members) :
    (removeValidated dest left members).kind (o :: rest) = none := by
  refine removeValidated_sub_foldl.none ?_
  have hmem : k ++ rest ∈ removalOrder members := by
    rw [removalOrder_eq hnodup]
    exact (List.mem_insertionSort _).2 hm
  have hsorted := pairwise_removalOrder hnodup
  have horder : ∀ m ∈ removalOrder members, m ∈ members := fun m => mem_of_mem_removalOrder
  obtain ⟨earlier, later, hsplit⟩ := List.append_of_mem hmem
  rw [hsplit] at hsorted horder ⊢
  have hlonger : ∀ m ∈ earlier, k.length < m.length := by
    intro m hm'
    have hle : (k ++ rest).length ≤ m.length :=
      (List.pairwise_append.1 hsorted).2.2 m hm' _ List.mem_cons_self
    have hpos := List.length_pos_iff.2 hrest
    rw [List.length_append] at hle
    omega
  have hearlier : ∀ t : Tree String C, t.Sub left → Route dest k o t →
      (earlier.foldl (removeMember dest) t).Sub left ∧
        Route dest k o (earlier.foldl (removeMember dest) t) := by
    have hmembers : ∀ m ∈ earlier, m ∈ members := fun m hm' => horder m (List.mem_append_left _ hm')
    clear hsplit hsorted horder
    induction earlier with
    | nil => exact fun t hsub hroute => ⟨hsub, hroute⟩
    | cons m earlier ih =>
      intro t hsub hroute
      refine ih (fun m' hm' => hlonger m' (List.mem_cons_of_mem m hm'))
        (fun m' hm' => hmembers m' (List.mem_cons_of_mem m hm')) _ ?_ ?_
      · exact (removeMember_sub dest t m).trans hsub
      · exact hplanted.route_removeMember hk hsub hroute (hmembers m List.mem_cons_self)
          (hlonger m List.mem_cons_self)
  obtain ⟨hsub, hroute⟩ := hearlier left (Sub.refl left) hplanted.route
  rw [List.foldl_append, List.foldl_cons]
  exact (foldl_sub (removeMember_sub dest) later _).none (hplanted.removes hk hrest hsub hroute)

/-- The tree with a new directory in the root that holds the path `rest`. -/
structure Outside (before world : Tree String C) (o : String) (rest : List String) : Prop where
  fresh : ∀ q, before.kind (o :: q) = none
  dirs : ∀ q, q <+: rest → world.kind (o :: q) = some .dir
  same : ∀ p, (∀ q, q <+: rest → p ≠ o :: q) → world.kind p = before.kind p

theorem exists_outside (before : Tree String C) (rest : List String) :
    ∃ o world, Outside before world o rest := by
  obtain ⟨o, ho⟩ := Infinite.exists_notMem_finset (before.children []).toFinset
  rw [List.mem_toFinset, mem_children, not_not, List.nil_append] at ho
  have hfresh : ∀ q, before.kind (o :: q) = none := fun q => none_of_prefix_none ho ⟨q, rfl⟩
  refine ⟨o, before.mkdirs [] (o :: rest), hfresh, fun q hq => ?_, fun p hp => ?_⟩
  · refine kind_mkdirs (kind_root before) (fun r hr hnil => .inl ?_) (List.cons_prefix_cons.2 ⟨rfl, hq⟩)
    obtain ⟨r, rfl, -⟩ := exists_cons_of_prefix hr hnil
    exact hfresh r
  · refine kind_mkdirs_of_ne fun q hq hnil heq => ?_
    obtain ⟨q, rfl, htail⟩ := exists_cons_of_prefix hq hnil
    exact hp q htail heq

/-- Nothing below the destination begins with the new name. -/
theorem Outside.apart (houtside : Outside before world o rest) (hdest : before.kind dest = some .dir)
    (hroot : dest ≠ []) (p q : List String) : o :: p ≠ dest ++ q := by
  intro heq
  cases dest with
  | nil => exact hroot rfl
  | cons d dest =>
    obtain ⟨rfl, -⟩ := List.cons.inj heq
    rw [houtside.fresh dest] at hdest
    cases hdest

/-- A tool may leave a link at a free place above a member. -/
theorem exists_link (hdest : world.kind dest = some .dir) (hk : k ≠ [])
    (hparents : ∀ q, q <+: k → q ≠ [] → q ≠ k →
      world.kind (dest ++ q) = none ∨ world.kind (dest ++ q) = some .dir)
    (habsent : world.kind (dest ++ k) = none) :
    ∃ left : Tree String C, Route dest k o left ∧
      ∀ p, (∀ q, q <+: k → q ≠ [] → p ≠ dest ++ q) → left.kind p = world.kind p := by
  have hproper : ∀ q, q <+: k.dropLast ↔ q <+: k ∧ q ≠ k := by
    intro q
    by_cases hq : q = []
    · simp [hq, Ne.symm hk]
    · have := parent_iff_dropLast (q := q) (m := k)
      unfold Parent at this
      tauto
  have hdirs : ∀ q, q <+: k.dropLast → (world.mkdirs dest k.dropLast).kind (dest ++ q) = some .dir := by
    intro q hq
    refine kind_mkdirs hdest (fun r hr hnil => ?_) hq
    obtain ⟨hr, hne⟩ := (hproper r).1 hr
    exact hparents r hr hnil hne
  have hput : (world.mkdirs dest k.dropLast).CanPut (dest ++ k) := by
    refine ⟨by simp [hk], ?_, ?_⟩
    · rw [List.dropLast_append_of_ne_nil hk]
      exact hdirs _ (List.prefix_refl _)
    · rw [kind_mkdirs_of_ne, habsent]
      · simp
      · intro q hq _ heq
        exact ((hproper q).1 hq).2 (List.append_cancel_left heq).symm
  refine ⟨(world.mkdirs dest k.dropLast).put (dest ++ k) (.link ⟨true, [.down o]⟩) hput, ⟨?_, ?_⟩, ?_⟩
  · intro q hq hne
    rw [kind_put, if_neg (by simpa using hne)]
    exact hdirs q ((hproper q).2 ⟨hq, hne⟩)
  · rw [kind_put, if_pos rfl]
  · intro p hp
    rw [kind_put, if_neg (hp k (List.prefix_refl k) hk), kind_mkdirs_of_ne]
    intro q hq hnil
    exact hp q ((hproper q).1 hq).1 hnil

/-- When a member lies below a place at which the archive may have a link, the cleanup can be led to a
directory outside. -/
theorem exists_planted {links : Set (List String)} (hdest : before.kind dest = some .dir)
    (hroot : dest ≠ []) (hfree : ∀ m ∈ members, m ≠ [] → Free dest before m) (hk : k ≠ [])
    (hrest : rest ≠ []) (hm : k ++ rest ∈ members) (habsent : before.kind (dest ++ k) = none)
    (hlink : k ∈ links) :
    ∃ (o : String) (world left : Tree String C), (∀ p, dest <+: p → world.kind p = before.kind p) ∧
      Leaves dest world left links ∧ Planted dest members k rest o left ∧
      world.kind (o :: rest) = some .dir := by
  obtain ⟨o, world, houtside⟩ := exists_outside before rest
  have hapart := houtside.apart hdest hroot
  have hbelow : ∀ q, world.kind (dest ++ q) = before.kind (dest ++ q) :=
    fun q => houtside.same _ fun r _ heq => hapart r q heq.symm
  have hparents : ∀ q, q <+: k → q ≠ [] → q ≠ k →
      before.kind (dest ++ q) = none ∨ before.kind (dest ++ q) = some .dir := by
    intro q hq hnil hne
    refine (hfree _ hm (by simp [hk])).parents q ⟨hq.trans (List.prefix_append k rest), hnil, ?_⟩
    rintro rfl
    simpa [hrest] using hq.length_le
  obtain ⟨left, hroute, hsame⟩ : ∃ left : Tree String C, Route dest k o left ∧
      ∀ p, (∀ q, q <+: k → q ≠ [] → p ≠ dest ++ q) → left.kind p = world.kind p := by
    refine exists_link ?_ hk (fun q hq hnil hne => ?_) ?_
    · simpa [hdest] using hbelow []
    · rw [hbelow]
      exact hparents q hq hnil hne
    · rw [hbelow, habsent]
  have hother : ∀ q, left.kind (o :: q) = world.kind (o :: q) := fun q => hsame _ fun r _ _ => hapart q r
  have hunchanged : ∀ q, ¬ (q <+: k ∧ q ≠ []) → left.kind (dest ++ q) = world.kind (dest ++ q) := by
    intro q hq
    refine hsame _ fun r hr hnil heq => ?_
    obtain rfl := List.append_cancel_left heq
    exact hq ⟨hr, hnil⟩
  refine ⟨o, world, left, ?_, ⟨?_, ?_, ?_⟩, ⟨hroute, ?_, ?_, ?_, ?_⟩,
    houtside.dirs rest (List.prefix_refl rest)⟩
  · rintro _ ⟨q, rfl⟩
    exact hbelow q
  · -- a new directory above the link is where nothing was, or where a directory was
    intro p kind hkind
    by_cases hp : ∃ q, q <+: k ∧ q ≠ [] ∧ p = dest ++ q
    · obtain ⟨q, hq, hnil, rfl⟩ := hp
      rw [hbelow] at hkind
      by_cases hne : q = k
      · rw [hne, habsent] at hkind
        cases hkind
      · rw [hroute.above q hq hne, ← hkind]
        exact ((hparents q hq hnil hne).resolve_left (by rw [hkind]; simp)).symm
    · rw [hsame p fun q hq hnil heq => hp ⟨q, hq, hnil, heq⟩, hkind]
  · intro p hp hnew
    by_contra hout
    rw [hsame p fun q _ _ heq => hout ⟨q, heq.symm⟩, hnew] at hp
    exact hp rfl
  · intro q target hq hnew
    by_cases hprefix : q <+: k ∧ q ≠ []
    · by_cases hne : q = k
      · rwa [hne]
      · rw [hroute.above q hprefix.1 hne] at hq
        cases hq
    · rw [hunchanged q hprefix, hnew] at hq
      cases hq
  · intro q hq
    rw [hother, houtside.dirs q hq]
  · intro q hq
    by_contra hnot
    rw [hother, houtside.same, houtside.fresh] at hq
    · exact hq rfl
    · intro r hr heq
      obtain rfl := (List.cons.inj heq).2
      exact hnot hr
  · intro m hm' hnot q hq hnil hne target hlink'
    by_cases hprefix : q <+: k ∧ q ≠ []
    · by_cases heq : q = k
      · exact hnot (heq ▸ hq)
      · rw [hroute.above q hprefix.1 heq] at hlink'
        cases hlink'
    · rw [hunchanged q hprefix, hbelow] at hlink'
      have hm'' : m ≠ [] := fun h => hnil (List.prefix_nil.1 (h ▸ hq))
      exact plain_of_parents (hfree m hm' hm'').parents q hq hnil hne target hlink'
  · rintro p ⟨r, hr⟩
    exact hapart (p ++ r) k (by simpa using hr)

end Planted

/-! ### An empty directory above a member -/

section Emptied

variable {d : List String}

/-- A tree that a tool leaves when it stops after making the parents `d` of a member: below the directory
`q`, which was empty, there is only the way to `d`. -/
structure Emptied (dest : Place String) (members : List (List String)) (q d : List String)
    (left : Tree String C) : Prop where
  nonempty : q ≠ []
  above : q <+: d
  dirs : ∀ r, r <+: d → left.kind (dest ++ r) = some .dir
  only : ∀ r, q <+: r → left.kind (dest ++ r) ≠ none → r <+: d
  plain : ∀ m ∈ members, left.Plain dest m
  absent : ∀ m ∈ members, m ≠ [] → left.kind (dest ++ m) = none

/-- The directories from `q` to `r` are there. -/
def Intact (dest : Place String) (q r : List String) (t : Tree String C) : Prop :=
  ∀ r', q <+: r' → r' <+: r → t.kind (dest ++ r') = some .dir

theorem Emptied.foldl_removeMember (hemptied : Emptied dest members q d left)
    {order : List (List String)} (horder : ∀ m ∈ order, m ∈ members) :
    order.foldl (removeMember dest) left = left := by
  induction order with
  | nil => rfl
  | cons m order ih =>
    have hm := horder m List.mem_cons_self
    have hsame : removeMember dest left m = left := by
      obtain hsame | ⟨hnil, hkind, -⟩ := removeMember_cases (hemptied.plain m hm)
      · exact hsame
      · exact absurd (hemptied.absent m hm hnil) hkind
    rw [List.foldl_cons, hsame]
    exact ih fun m' hm' => horder m' (List.mem_cons_of_mem m hm')

/-- From an empty directory on the way the parents are removed up to `q`. -/
theorem Emptied.collapse (hemptied : Emptied dest members q d left) (hsub : t.Sub left)
    {parents : List String} (hq : q <+: parents.reverse) (hd : parents.reverse <+: d)
    (hintact : Intact dest q parents.reverse t)
    (hdeep : ∀ x, x ≠ [] → t.kind (dest ++ (parents.reverse ++ x)) = none) :
    (removeParents dest t parents).kind (dest ++ q) = none := by
  induction parents generalizing t with
  | nil => exact absurd (List.prefix_nil.1 hq) hemptied.nonempty
  | cons part parents ih =>
    rw [List.reverse_cons] at hq hd hintact hdeep
    have hdir := hintact _ hq (List.prefix_refl _)
    have hne : dest ++ (parents.reverse ++ [part]) ≠ [] := by simp
    have hempty : t.IsEmptyDir (dest ++ (parents.reverse ++ [part])) := by
      refine isEmptyDir_iff.2 ⟨hdir, fun n => ?_⟩
      simpa using hdeep [n] (by simp)
    have hremove : t.removeDir dest (below (parents.reverse ++ [part])) =
        some (t.remove (dest ++ (parents.reverse ++ [part]))) := by
      refine removeDir_eq_some.2 ⟨_, walk_names _ (fun r hr _ hr' => ?_) (by simp), hne, hempty, rfl⟩
      refine dir_of_prefix (by rw [hdir]; simp) ((List.prefix_append_right_inj dest).2 hr) ?_
      simpa using hr'
    rw [removeParents, hremove]
    obtain heq | hq := List.prefix_concat_iff.1 hq
    · refine (removeParents_sub_self _ _).none ?_
      rw [kind_remove hne, heq, if_pos (List.prefix_refl _)]
    · refine ih ((remove_sub hne).trans hsub) hq ((List.prefix_append _ _).trans hd) ?_ ?_
      · intro r hqr hr
        rw [kind_remove hne, if_neg, hintact r hqr (hr.trans (List.prefix_append _ _))]
        intro hprefix
        have hle := ((List.prefix_append_right_inj dest).1 hprefix).length_le
        have hle' := hr.length_le
        rw [List.length_append, List.length_singleton] at hle
        omega
      · -- what else is below is on the way to `d`, hence below what was removed
        intro x hx
        rw [kind_remove hne]
        split_ifs with hprefix
        · rfl
        · by_contra hkind
          refine hprefix ((List.prefix_append_right_inj dest).2 ?_)
          have hx' : parents.reverse ++ x <+: d :=
            hemptied.only _ (hq.trans (List.prefix_append _ _)) fun h => hkind (hsub.none h)
          refine List.prefix_of_prefix_length_le hd hx' ?_
          have := List.length_pos_iff.2 hx
          simp only [List.length_append, List.length_singleton]
          omega

/-- The member that lies in `d` takes the whole way with it. -/
theorem Emptied.removeParents_none (hemptied : Emptied dest members q d left) (hsub : t.Sub left)
    {parents : List String} (hd : parents.reverse = d) (hintact : Intact dest q d t) :
    (removeParents dest t parents).kind (dest ++ q) = none := by
  refine hemptied.collapse hsub (hd ▸ hemptied.above) (hd ▸ List.prefix_refl d) (hd ▸ hintact)
    fun x hx => ?_
  by_contra hkind
  rw [hd] at hkind
  have hprefix := hemptied.only _ (hemptied.above.trans (List.prefix_append d x))
    fun h => hkind (hsub.none h)
  have hle := hprefix.length_le
  have := List.length_pos_iff.2 hx
  rw [List.length_append] at hle
  omega

/-- A member whose parents are not `d` leaves the way to `d` as it is, or `q` is gone. -/
theorem Emptied.removeParents_cases (hemptied : Emptied dest members q d left) (hsub : t.Sub left)
    (hm : m ∈ members) {parents : List String}
    (hparents : ∀ r, r <+: parents.reverse → r ≠ [] → Parent r m) (hintact : Intact dest q d t) :
    (removeParents dest t parents).kind (dest ++ q) = none ∨
      Intact dest q d (removeParents dest t parents) := by
  induction parents generalizing t with
  | nil => exact .inr hintact
  | cons part parents ih =>
    by_cases hd : (part :: parents).reverse = d
    · exact .inl (hemptied.removeParents_none hsub hd hintact)
    · rw [List.reverse_cons] at hparents hd
      rw [removeParents]
      cases hremove : t.removeDir dest (below (parents.reverse ++ [part])) with
      | none => exact .inr hintact
      | some t' =>
        have hparent : Parent (parents.reverse ++ [part]) m := hparents _ (List.prefix_refl _) (by simp)
        have hplain := hparent.plain (hsub.plain (hemptied.plain m hm))
        obtain ⟨hempty, rfl⟩ := removeDir_cases hplain hremove
        have hne : dest ++ (parents.reverse ++ [part]) ≠ [] := by simp
        refine ih ((remove_sub hne).trans hsub)
          (fun r hr => hparents r (hr.trans (List.prefix_append _ _))) fun r hqr hr => ?_
        rw [kind_remove hne, if_neg, hintact r hqr hr]
        -- an empty directory is not above `d`
        intro hprefix
        have habove := ((List.prefix_append_right_inj dest).1 hprefix).trans hr
        have hnone := hempty.none_below ((List.prefix_append_right_inj dest).2 habove) (by simpa using hd)
        rw [hintact d hemptied.above (List.prefix_refl d)] at hnone
        cases hnone

/-- The second loop removes `q`. -/
theorem Emptied.foldl_removeParents (hemptied : Emptied dest members q d left)
    {list : List (List String)} (hlist : ∀ m ∈ list, m ∈ members) (hm : m ∈ list) (hd : m.dropLast = d)
    (hsub : t.Sub left) (hintact : t.kind (dest ++ q) = none ∨ Intact dest q d t) :
    (list.foldl (fun t parts => removeParents dest t parts.dropLast.reverse) t).kind (dest ++ q) =
      none := by
  induction list generalizing t with
  | nil => cases hm
  | cons m' list ih =>
    rw [List.foldl_cons]
    have hsub' : (removeParents dest t m'.dropLast.reverse).Sub left :=
      (removeParents_sub_self t _).trans hsub
    have hparents : ∀ r, r <+: m'.dropLast.reverse.reverse → r ≠ [] → Parent r m' := by
      intro r hr hnil
      rw [List.reverse_reverse] at hr
      exact parent_iff_dropLast.2 ⟨hr, hnil⟩
    have hstep : (removeParents dest t m'.dropLast.reverse).kind (dest ++ q) = none ∨
        Intact dest q d (removeParents dest t m'.dropLast.reverse) := by
      obtain hnone | hintact := hintact
      · exact .inl ((removeParents_sub_self t _).none hnone)
      · exact hemptied.removeParents_cases hsub (hlist m' List.mem_cons_self) hparents hintact
    obtain rfl | hm := List.mem_cons.1 hm
    · refine (foldl_sub (fun t m => removeParents_sub_self t m.dropLast.reverse) list _).none ?_
      obtain hnone | hintact := hintact
      · exact (removeParents_sub_self t _).none hnone
      · exact hemptied.removeParents_none hsub (by rw [List.reverse_reverse, hd]) hintact
    · exact ih (fun m' hm' => hlist m' (List.mem_cons_of_mem _ hm')) hm hsub' hstep

theorem Emptied.removeValidated_none (hemptied : Emptied dest members q d left) (hm : m ∈ members)
    (hd : m.dropLast = d) : (removeValidated dest left members).kind (dest ++ q) = none := by
  have horder : ∀ m ∈ removalOrder members, m ∈ members := fun m => mem_of_mem_removalOrder
  rw [removeValidated, hemptied.foldl_removeMember horder]
  refine hemptied.foldl_removeParents (fun m hm => hm) hm hd (Sub.refl left) (.inr ?_)
  exact fun r _ hr => hemptied.dirs r hr

/-- Of the members below a place one has the fewest parts. -/
theorem exists_shortest (hm : m ∈ members) (hq : Parent q m) :
    ∃ m ∈ members, Parent q m ∧ ∀ m' ∈ members, Parent q m' → m.length ≤ m'.length := by
  classical
  have hmem : m ∈ (members.filter (Parent q)).toFinset := by simp [hm, hq]
  obtain ⟨m, hm, hmin⟩ := Finset.exists_min_image _ List.length ⟨m, hmem⟩
  rw [List.mem_toFinset, List.mem_filter, decide_eq_true_eq] at hm
  refine ⟨m, hm.1, hm.2, fun m' hm' hq' => hmin m' ?_⟩
  simp [hm', hq']

/-- When a parent of a member was an empty directory, a tool that stops after making the parents of a
member lets the cleanup remove it. -/
theorem exists_emptied {links : Set (List String)} (hdest : before.kind dest = some .dir)
    (hfree : ∀ m ∈ members, m ≠ [] → Free dest before m) (hm : m ∈ members) (hq : Parent q m)
    (hempty : before.IsEmptyDir (dest ++ q)) :
    ∃ left : Tree String C, Leaves dest before left links ∧
      (removeValidated dest left members).kind (dest ++ q) = none := by
  obtain ⟨m, hm, hq, hmin⟩ := exists_shortest hm hq
  have hfree' (m' : List String) (hm' : m' ∈ members) (r : List String) (hr : Parent r m') :
      before.kind (dest ++ r) = none ∨ before.kind (dest ++ r) = some .dir := by
    refine (hfree m' hm' fun h => ?_).parents r hr
    rw [h] at hr
    exact hr.2.1 (List.prefix_nil.1 hr.1)
  have hparents : ∀ r, r <+: m.dropLast → r ≠ [] →
      before.kind (dest ++ r) = none ∨ before.kind (dest ++ r) = some .dir :=
    fun r hr hnil => hfree' m hm r (parent_iff_dropLast.2 ⟨hr, hnil⟩)
  have hdirs : ∀ r, r <+: m.dropLast → (before.mkdirs dest m.dropLast).kind (dest ++ r) = some .dir :=
    fun r hr => kind_mkdirs hdest hparents hr
  have hsame : ∀ r, ¬ r <+: m.dropLast →
      (before.mkdirs dest m.dropLast).kind (dest ++ r) = before.kind (dest ++ r) := by
    intro r hr
    refine kind_mkdirs_of_ne fun r' hr' _ heq => ?_
    obtain rfl := List.append_cancel_left heq
    exact hr hr'
  have hqd := (parent_iff_dropLast.1 hq).1
  have hemptied : Emptied dest members q m.dropLast (before.mkdirs dest m.dropLast) := by
    refine ⟨hq.2.1, hqd, hdirs, fun r hqr hr => ?_, fun m' hm' r hr hnil hne target hlink => ?_,
      fun m' hm' hnil => ?_⟩
    · by_contra hnot
      rw [hsame r hnot, hempty.none_below ((List.prefix_append_right_inj dest).2 hqr)] at hr
      · exact hr rfl
      · intro heq
        obtain rfl := List.append_cancel_left heq
        exact hnot hqd
    · by_cases hrd : r <+: m.dropLast
      · rw [hdirs r hrd] at hlink
        cases hlink
      · rw [hsame r hrd] at hlink
        obtain h | h := hfree' m' hm' r ⟨hr, hnil, hne⟩ <;> rw [h] at hlink <;> cases hlink
    · have habsent := (hfree m' hm' hnil).absent
      rw [hsame m', habsent]
      -- a member on the way would be a shorter one below `q`
      intro hprefix
      have hqm' : q <+: m' := by
        obtain h | h := List.prefix_or_prefix_of_prefix hqd hprefix
        · exact h
        · have hnone := none_of_prefix_none habsent ((List.prefix_append_right_inj dest).2 h)
          rw [hempty.1] at hnone
          cases hnone
      have hne : q ≠ m' := by
        rintro rfl
        rw [hempty.1] at habsent
        cases habsent
      have hle := hmin m' hm' ⟨hqm', hq.2.1, hne⟩
      have hle' := hprefix.length_le
      have hpos := List.length_pos_iff.2 hnil
      rw [List.length_dropLast] at hle'
      omega
  refine ⟨before.mkdirs dest m.dropLast, ⟨fun p k hk => ?_, fun p hp hnew => ?_, fun r target hr hnew => ?_⟩,
    hemptied.removeValidated_none hm rfl⟩
  · by_cases hp : ∃ r, r <+: m.dropLast ∧ r ≠ [] ∧ p = dest ++ r
    · obtain ⟨r, hr, hnil, rfl⟩ := hp
      rw [hdirs r hr, ← hk]
      exact ((hparents r hr hnil).resolve_left (by rw [hk]; simp)).symm
    · rw [kind_mkdirs_of_ne fun r hr hnil heq => hp ⟨r, hr, hnil, heq⟩, hk]
  · by_contra hout
    rw [kind_mkdirs_of_ne fun r _ _ heq => hout ⟨r, heq.symm⟩, hnew] at hp
    exact hp rfl
  · by_cases hrd : r <+: m.dropLast
    · rw [hdirs r hrd] at hr
      cases hr
    · rw [hsame r hrd, hnew] at hr
      cases hr

end Emptied

/-! ### Failed extractions -/

/-- When the extraction fails, every file and directory that was there before is still there. -/
def KeepsOnError (world : Tree String C) (result : Except String Unit × Tree String C) : Prop :=
  (∃ error, result.1 = .error error) →
    ∀ p, (world.kind p = some .dir ∨ ∃ content, world.kind p = some (.file content)) →
      result.2.kind p = world.kind p

theorem nodup_of_validateLoop {names : List String} {seen : List (List String)}
    (h : validateLoop names seen = .ok members) (hseen : seen.Nodup) : members.Nodup := by
  induction names generalizing seen with
  | nil =>
    cases h
    exact hseen
  | cons name names ih =>
    obtain ⟨parts, -, h⟩ := bind_eq_ok.1 h
    split at h
    · cases h
    next hnew =>
      refine ih h (List.nodup_append.2 ⟨hseen, List.nodup_singleton parts, ?_⟩)
      rintro other hother _ hparts rfl
      rw [List.mem_singleton] at hparts
      subst hparts
      exact hnew (List.any_eq_true.2 ⟨other, hother, by simp⟩)

theorem nodup_of_validateMembers {names : List String} (h : validateMembers names = .ok members) :
    members.Nodup := by
  unfold validateMembers at h
  split_ifs at h
  exact nodup_of_validateLoop h List.nodup_nil

section Inside

variable {world : Tree String C} (hinside : ∀ p, dest <+: p → world.kind p = before.kind p)

include hinside

/-- The checks look only inside the destination. -/
theorem passes_checkOutputs_inside (hdest : before.kind dest = some .dir) :
    Passes (checkOutputs dest text world members) ↔ Passes (checkOutputs dest text before members) := by
  have hbelow (q : List String) : world.kind (dest ++ q) = before.kind (dest ++ q) :=
    hinside _ (List.prefix_append dest q)
  have hfree (m : List String) : Free dest world m ↔ Free dest before m := by
    constructor <;> rintro ⟨hparents, habsent⟩ <;> refine ⟨fun q hq => ?_, ?_⟩
    · rw [← hbelow]
      exact hparents q hq
    · rw [← hbelow, habsent]
    · rw [hbelow]
      exact hparents q hq
    · rw [hbelow, habsent]
  rw [passes_checkOutputs hdest, passes_checkOutputs ((hinside _ (List.prefix_refl dest)).trans hdest)]
  simp only [hfree]

theorem Harmless.inside {links : Set (List String)} (h : Harmless dest before links members) :
    Harmless dest world links members := by
  have hbelow (q : List String) : world.kind (dest ++ q) = before.kind (dest ++ q) :=
    hinside _ (List.prefix_append dest q)
  refine ⟨fun m hm q hq hnone => ?_, fun m hm q hq hempty => ?_⟩
  · rw [hbelow] at hnone
    exact h.unlinked m hm q hq hnone
  · refine h.occupied m hm q hq (isEmptyDir_iff.2 ?_)
    rw [isEmptyDir_iff, hbelow] at hempty
    refine ⟨hempty.1, fun n => ?_⟩
    rw [List.append_assoc, ← hbelow, ← List.append_assoc]
    exact hempty.2 n

end Inside

section Run

variable {world : Tree String C} {size : C → ℕ} {exit : Option (ℤ × String)}

/-- A failed run leaves the tree as it was, or cleans up what the tool left. -/
theorem extractArchive_cases {error : String}
    (h : (extractArchive dest text size world left exit members).1 = .error error) :
    (extractArchive dest text size world left exit members).2 = world ∨
      (world.kind dest = some .dir ∧ Passes (checkOutputs dest text world members)) ∧
        (extractArchive dest text size world left exit members).2 =
          removeValidated dest left members := by
  unfold extractArchive at h ⊢
  split_ifs at h ⊢ with hdest
  · exact .inl rfl
  · cases hchecks : checkOutputs dest text world members with
    | error error => exact .inl rfl
    | ok u =>
      refine .inr ⟨⟨not_not.1 hdest, passes_ok u⟩, ?_⟩
      simp only [hchecks] at h ⊢
      cases exit with
      | none => rfl
      | some answer =>
        obtain ⟨code, stderr⟩ := answer
        simp only at h ⊢
        split_ifs at h ⊢ with hcode
        · rfl
        · cases hextracted : validateExtracted dest text size left 0 members with
          | error error => rfl
          | ok u =>
            rw [hextracted] at h
            cases h

/-- A tool that does not finish. -/
theorem extractArchive_unfinished (hdest : world.kind dest = some .dir)
    (hchecks : Passes (checkOutputs dest text world members)) :
    extractArchive dest text size world left none members =
      (.error "Extraction failed: unpacking failed", removeValidated dest left members) := by
  obtain ⟨u, hu⟩ := hchecks
  rw [extractArchive, if_neg (not_not.2 hdest), hu]

end Run

/-- Whatever the tool leaves, a failed extraction keeps what was there: exactly when the listing is refused
beforehand, or no listed member lies below a link of the archive and no parent of a listed member was an
empty directory. -/
theorem cleanup_keeps_iff {names : List String} (haccepted : validateMembers names = .ok members)
    (hroot : dest ≠ []) (size : C → ℕ) (links : Set (List String)) :
    (∀ (world left : Tree String C) (exit : Option (ℤ × String)),
      (∀ p, dest <+: p → world.kind p = before.kind p) → Leaves dest world left links →
        KeepsOnError world (extractArchive dest text size world left exit members)) ↔
      (before.kind dest = some .dir → Passes (checkOutputs dest text before members) →
        Harmless dest before links members) := by
  constructor
  · intro h hdest hchecks
    have hfree := (passes_checkOutputs hdest).1 hchecks
    refine ⟨fun m hm k hk habsent hlink => ?_, fun m hm q hq hempty => ?_⟩
    · obtain ⟨⟨rest, rfl⟩, hnil, hne⟩ := hk
      have hrest : rest ≠ [] := fun hrest => hne (by rw [hrest, List.append_nil])
      obtain ⟨o, world, left, hinside, hleaves, hplanted, houtside⟩ :=
        exists_planted hdest hroot hfree hnil hrest hm habsent hlink
      have hdest' := (hinside dest (List.prefix_refl dest)).trans hdest
      have hkeeps := h world left none hinside hleaves
      rw [extractArchive_unfinished hdest' ((passes_checkOutputs_inside hinside hdest).2 hchecks)]
        at hkeeps
      have hgone := hplanted.removeValidated_none hnil hrest (nodup_of_validateMembers haccepted) hm
      have hkept := hkeeps ⟨_, rfl⟩ (o :: rest) (.inl houtside)
      rw [hgone, houtside] at hkept
      cases hkept
    · obtain ⟨left, hleaves, hgone⟩ := exists_emptied hdest hfree hm hq hempty
      have hkeeps := h before left none (fun p _ => rfl) hleaves
      rw [extractArchive_unfinished hdest hchecks] at hkeeps
      have hkept := hkeeps ⟨_, rfl⟩ (dest ++ q) (.inl hempty.1)
      rw [hgone, hempty.1] at hkept
      cases hkept
  · intro h world left exit hinside hleaves
    rintro ⟨error, herror⟩ p hp
    obtain hsame | ⟨⟨hdest, hchecks⟩, hcleaned⟩ := extractArchive_cases herror
    · rw [hsame]
    · have hbefore := (hinside dest (List.prefix_refl dest)).symm.trans hdest
      have hharmless := h hbefore ((passes_checkOutputs_inside hinside hbefore).1 hchecks)
      have hsub := keeps_removeValidated hleaves (hharmless.inside hinside)
        ((passes_checkOutputs hdest).1 hchecks)
      rw [hcleaned]
      obtain hdir | ⟨content, hfile⟩ := hp
      · rw [hdir, hsub p _ hdir]
      · rw [hfile, hsub p _ hfile]

/-! ### Two archives -/

/-- A destination `/work` beside `/home/notes`. -/
def workTree : Tree String ℕ :=
  ((Tree.empty.mkdir ["work"]).mkdir ["home"]).write ["home", "notes"] (.file 7)

/-- A path below the destination as it is displayed. -/
def display (parts : List String) : String := "/".intercalate ("/work" :: parts)

/-- A truncated archive with one file leaves `/home/notes` and `/work` alone. -/
theorem cleanup_keeps_truncated :
    KeepsOnError workTree (extractArchive ["work"] display id workTree
      (workTree.write ["work", "tool"] (.file 3)) (some (2, "truncated archive")) [["tool"]]) := by
  have haccepted : validateMembers ["tool"] = .ok [["tool"]] := by decide
  have hharmless : Harmless ["work"] workTree ∅ [["tool"]] := by
    have hparent : ∀ m ∈ [["tool"]], ∀ q, ¬ Parent q m := by
      intro m hm q hq
      rw [List.mem_singleton.1 hm, parent_iff_dropLast] at hq
      exact hq.2 (List.prefix_nil.1 hq.1)
    exact ⟨fun m hm q hq => absurd hq (hparent m hm q), fun m hm q hq => absurd hq (hparent m hm q)⟩
  refine (cleanup_keeps_iff haccepted (by decide) id ∅).2 (fun _ _ => hharmless) _ _ _ (fun p _ => rfl) ?_
  exact leaves_write (q := ["tool"]) (by decide) (by decide) (by decide)

/-- The archive has a link `pkg` to `/home` and a member `pkg/notes`. The extracted tree is refused, and the
cleanup removes `/home/notes`. -/
theorem cleanup_follows_link :
    validateMembers ["pkg", "pkg/notes"] = .ok [["pkg"], ["pkg", "notes"]] ∧
      Leaves ["work"] workTree (workTree.write ["work", "pkg"] (.link ⟨true, [.down "home"]⟩)) {["pkg"]} ∧
      ¬ KeepsOnError workTree (extractArchive ["work"] display id workTree
        (workTree.write ["work", "pkg"] (.link ⟨true, [.down "home"]⟩)) (some (0, ""))
        [["pkg"], ["pkg", "notes"]]) := by
  refine ⟨by decide, ?_, fun h => ?_⟩
  · exact leaves_write (q := ["pkg"]) (by decide) (by decide) (fun _ => rfl)
  have hkept := h ⟨"Unsupported archive member type: pkg", by decide⟩ ["home", "notes"]
    (.inr ⟨7, by decide⟩)
  revert hkept
  decide

end Kyth.Fetch
