import Mathlib.Tactic

/-!
# A file system with links

A tree of named places. A place holds a file, a directory, a symbolic link or something special; what is
not the root lies in a directory. Paths are resolved step by step from a directory, and a link on the way
replaces the step that led to it.

* `Tree.kind` is what a place holds, `Tree.remove` takes a place away with all below it, `Tree.put` adds
  one;
* `Tree.walk` is the resolution of a path, with at most as many links as the kernel allows;
* `walk_names` and `eq_of_walk_names` say that a path without links leads to the place it spells;
* `Tree.Sub` compares a tree with what is left of it after removals.
-/

namespace Kyth.FileTree

/-- A place: the names from the root to it. -/
abbrev Place (N : Type) := List N

/-- A step of a path: the directory itself (`.`, or a slash at the end), its parent, or a name in it. -/
inductive Step (N : Type)
  | here
  | up
  | down (name : N)
  deriving DecidableEq

/-- The names that a path spells. -/
def spelled {N : Type} (steps : List (Step N)) : Place N :=
  steps.filterMap fun
    | .down n => some n
    | _ => none

section Spelled

variable {N : Type} {n : N} {tail : List (Step N)}

theorem spelled_append (a b : List (Step N)) : spelled (a ++ b) = spelled a ++ spelled b :=
  List.filterMap_append

@[simp] theorem spelled_map_down (names : Place N) : spelled (names.map Step.down) = names := by
  rw [spelled, List.filterMap_map]
  exact List.filterMap_some

theorem spelled_here (h : ∀ step ∈ tail, step = .here) : spelled tail = [] := by
  refine List.filterMap_eq_nil_iff.2 fun step hstep => ?_
  rw [h step hstep]

/-- Nothing stands behind the last name. -/
theorem here_nil : ∀ step ∈ ([] : List (Step N)), step = .here := by simp

theorem spelled_down (h : ∀ step ∈ tail, step = .here) : spelled (.down n :: tail) = [n] := by
  rw [show Step.down n :: tail = [.down n] ++ tail from rfl, spelled_append, spelled_here h]
  rfl

end Spelled

/-- The text of a symbolic link. -/
structure Target (N : Type) where
  absolute : Bool
  steps : List (Step N)
  deriving DecidableEq

/-- What a place holds. -/
inductive Kind (N C : Type)
  | file (content : C)
  | dir
  | link (target : Target N)
  | special
  deriving DecidableEq

/-- The entry is a link. -/
def Kind.isLink {N C : Type} : Kind N C → Bool
  | .link _ => true
  | _ => false

-- Whether a place is empty or a directory can be decided for any contents.
instance {N C : Type} : ∀ k : Option (Kind N C), Decidable (k = none)
  | none => isTrue rfl
  | some _ => isFalse nofun

instance {N C : Type} : ∀ k : Option (Kind N C), Decidable (k = some .dir)
  | some .dir => isTrue rfl
  | none | some (.file _) | some (.link _) | some .special => isFalse nofun

variable {N C : Type} [DecidableEq N]

/-- What a list of entries has at a place; the root is a directory. -/
def kindIn (nodes : List (Place N × Kind N C)) (p : Place N) : Option (Kind N C) :=
  if p = [] then some .dir else nodes.lookup p

/-- A tree: the entries, the last one written first, each in a directory. -/
structure Tree (N C : Type) [DecidableEq N] where
  nodes : List (Place N × Kind N C)
  parents : ∀ p n, kindIn nodes (p ++ [n]) ≠ none → kindIn nodes p = some .dir

/-! ### Entries -/

section Entries

variable {α β : Type} [BEq α] [LawfulBEq α] {P : α → Bool} {l : List (α × β)} {a : α}

theorem lookup_filter_key :
    (l.filter fun e => P e.1).lookup a = if P a then l.lookup a else none := by
  induction l with
  | nil => simp
  | cons e l ih =>
    obtain ⟨b, v⟩ := e
    by_cases hab : a = b
    · subst hab
      by_cases ha : P a = true
      · rw [List.filter_cons, if_pos ha, if_pos ha, List.lookup_cons, List.lookup_cons, BEq.rfl]
      · rw [List.filter_cons, if_neg ha, ih, if_neg ha, if_neg ha]
    · have hbeq : (a == b) = false := beq_false_of_ne hab
      rw [List.lookup_cons, hbeq, List.filter_cons]
      split_ifs with hb ha ha
      · rw [List.lookup_cons, hbeq, ih, if_pos ha]
      · rw [List.lookup_cons, hbeq, ih, if_neg ha]
      · rw [ih, if_pos ha]
      · rw [ih, if_neg ha]

theorem lookup_ne_none_iff : l.lookup a ≠ none ↔ ∃ e ∈ l, e.1 = a := by
  induction l with
  | nil => simp
  | cons e l ih =>
    obtain ⟨b, v⟩ := e
    by_cases hab : a = b
    · subst hab
      simp
    · have hbeq : (a == b) = false := beq_false_of_ne hab
      rw [List.lookup_cons, hbeq, ih]
      simp [Ne.symm hab]

end Entries

namespace Tree

/-- What a place holds. -/
def kind (t : Tree N C) (p : Place N) : Option (Kind N C) := kindIn t.nodes p

variable {t t' : Tree N C} {p q : Place N} {n : N} {k : Kind N C}

@[simp] theorem kind_root (t : Tree N C) : t.kind [] = some .dir := by simp [kind, kindIn]

theorem dir_of_child (h : t.kind (p ++ [n]) ≠ none) : t.kind p = some .dir := t.parents p n h

/-- Above everything there are directories. -/
theorem dir_of_append (h : t.kind (p ++ q) ≠ none) (hq : q ≠ []) : t.kind p = some .dir := by
  induction q using List.reverseRecOn with
  | nil => exact absurd rfl hq
  | append_singleton q n ih =>
    rw [← List.append_assoc] at h
    have hdir := dir_of_child h
    by_cases hnil : q = []
    · rwa [hnil, List.append_nil] at hdir
    · exact ih (by rw [hdir]; simp) hnil

theorem dir_of_prefix (h : t.kind q ≠ none) (hp : p <+: q) (hne : p ≠ q) : t.kind p = some .dir := by
  obtain ⟨r, rfl⟩ := hp
  exact dir_of_append h fun hr => hne (by rw [hr, List.append_nil])

/-- Below something that is no directory there is nothing. -/
theorem none_of_prefix (h : t.kind p ≠ some .dir) (hp : p <+: q) (hne : p ≠ q) : t.kind q = none := by
  by_contra hq
  exact h <| dir_of_prefix hq hp hne

theorem none_of_prefix_none (h : t.kind p = none) (hp : p <+: q) : t.kind q = none := by
  by_cases hne : p = q
  · rwa [← hne]
  · exact none_of_prefix (by rw [h]; simp) hp hne

/-! ### Changes -/

/-- Take a place away, with all below it. The root stays. -/
def remove (t : Tree N C) (p : Place N) : Tree N C where
  nodes := t.nodes.filter fun e => !p.isPrefixOf e.1
  parents := by
    intro q n h
    unfold kindIn at h ⊢
    rw [if_neg (by simp), lookup_filter_key (P := fun q => !p.isPrefixOf q)] at h
    split_ifs at h with hkeep
    · have hdir := t.parents q n (by rwa [kindIn, if_neg (by simp)])
      have hpre : ¬ p <+: q := by
        intro hp
        have hkeep' := List.isPrefixOf_iff_prefix.2 (hp.trans (List.prefix_append q [n]))
        simp [hkeep'] at hkeep
      unfold kindIn at hdir
      split_ifs with hq
      · rfl
      · rw [if_neg hq] at hdir
        rw [lookup_filter_key (P := fun q => !p.isPrefixOf q), hdir]
        simp [← List.isPrefixOf_iff_prefix] at hpre
        simp [hpre]
    · exact absurd rfl h

theorem kind_remove (hp : p ≠ []) :
    (t.remove p).kind q = if p <+: q then none else t.kind q := by
  unfold kind remove kindIn
  by_cases hq : q = []
  · subst hq
    simp [hp]
  · rw [if_neg hq, if_neg hq, lookup_filter_key (P := fun q => !p.isPrefixOf q)]
    by_cases hpre : p <+: q
    · simp [hpre, List.isPrefixOf_iff_prefix.2 hpre]
    · have hnot : p.isPrefixOf q = false := by
        rw [← Bool.not_eq_true, List.isPrefixOf_iff_prefix]
        exact hpre
      simp [hpre, hnot]

/-- An entry may be written at a place when its parent is a directory and it is none. -/
def CanPut (t : Tree N C) (p : Place N) : Prop :=
  p ≠ [] ∧ t.kind p.dropLast = some .dir ∧ t.kind p ≠ some .dir

instance (t : Tree N C) (p : Place N) : Decidable (t.CanPut p) :=
  inferInstanceAs (Decidable (_ ∧ _ ∧ _))

/-- Write an entry. -/
def put (t : Tree N C) (p : Place N) (k : Kind N C) (h : t.CanPut p) : Tree N C where
  nodes := (p, k) :: t.nodes
  parents := by
    obtain ⟨hne, hparent, hdir⟩ := h
    have hlookup (q : Place N) (hq : q ≠ p) : kindIn ((p, k) :: t.nodes) q = t.kind q := by
      have hbeq : (q == p) = false := beq_false_of_ne hq
      unfold kind kindIn
      rw [List.lookup_cons, hbeq]
    intro q n hchild
    have hqp : q ≠ p := by
      rintro rfl
      rw [hlookup _ (by simp)] at hchild
      exact hdir (dir_of_child hchild)
    rw [hlookup q hqp]
    by_cases hp : q ++ [n] = p
    · rw [← hp, List.dropLast_concat] at hparent
      exact hparent
    · rw [hlookup _ hp] at hchild
      exact dir_of_child hchild

theorem kind_put {h : t.CanPut p} : (t.put p k h).kind q = if q = p then some k else t.kind q := by
  have hp : p ≠ [] := h.1
  unfold kind put kindIn
  by_cases hq : q = []
  · subst hq
    simp [Ne.symm hp]
  · rw [if_neg hq, if_neg hq, List.lookup_cons]
    by_cases hqp : q = p
    · simp [hqp]
    · have hbeq : (q == p) = false := beq_false_of_ne hqp
      rw [hbeq, if_neg hqp]

/-- The tree with nothing but its root. -/
def empty : Tree N C where
  nodes := []
  parents := by
    intro p n h
    simp [kindIn] at h

@[simp] theorem kind_empty : (empty : Tree N C).kind p = if p = [] then some .dir else none := by
  simp [kind, empty, kindIn]

/-- Write an entry at a place; nothing happens when there is a directory, or no directory to lie in. -/
def write (t : Tree N C) (p : Place N) (k : Kind N C) : Tree N C :=
  if h : t.CanPut p then t.put p k h else t

theorem kind_write (h : t.CanPut p) :
    (t.write p k).kind q = if q = p then some k else t.kind q := by
  rw [write, dif_pos h, kind_put]

/-- `create_dir` at a place: nothing happens when it is taken or has no directory to lie in. -/
def mkdir (t : Tree N C) (p : Place N) : Tree N C :=
  if h : t.kind p = none ∧ t.CanPut p then t.put p .dir h.2 else t

/-- The directories along a path, from a directory on. -/
def mkdirs (t : Tree N C) : Place N → Place N → Tree N C
  | _, [] => t
  | base, n :: names => mkdirs (t.mkdir (base ++ [n])) (base ++ [n]) names

theorem kind_mkdir_of_ne (h : q ≠ p) : (t.mkdir p).kind q = t.kind q := by
  unfold mkdir
  split_ifs
  · rw [kind_put, if_neg h]
  · rfl

theorem kind_mkdir_self (hparent : t.kind p = some .dir)
    (h : t.kind (p ++ [n]) = none ∨ t.kind (p ++ [n]) = some .dir) :
    (t.mkdir (p ++ [n])).kind (p ++ [n]) = some .dir := by
  unfold mkdir
  split_ifs with hput
  · rw [kind_put, if_pos rfl]
  · refine h.resolve_left fun hnone => hput ⟨hnone, by simp, ?_, by rw [hnone]; simp⟩
    rwa [List.dropLast_concat]

/-- The directories of a path are there afterwards. -/
theorem kind_mkdirs {base names : Place N} (hbase : t.kind base = some .dir)
    (h : ∀ q, q <+: names → q ≠ [] → t.kind (base ++ q) = none ∨ t.kind (base ++ q) = some .dir)
    (hq : q <+: names) : (t.mkdirs base names).kind (base ++ q) = some .dir := by
  induction names generalizing t base q with
  | nil => rw [List.prefix_nil.1 hq, List.append_nil]; exact hbase
  | cons n names ih =>
    rw [mkdirs]
    have hself := kind_mkdir_self hbase (h [n] ⟨names, rfl⟩ (by simp))
    have hrest : ∀ q, q <+: names → q ≠ [] →
        (t.mkdir (base ++ [n])).kind (base ++ [n] ++ q) = none ∨
          (t.mkdir (base ++ [n])).kind (base ++ [n] ++ q) = some .dir := by
      intro q hq hnil
      rw [kind_mkdir_of_ne (by simpa using hnil)]
      simpa using h (n :: q) (List.cons_prefix_cons.2 ⟨rfl, hq⟩) (by simp)
    cases q with
    | nil =>
      -- the base is a directory above what is there now
      have hn := ih hself hrest (List.nil_prefix)
      rw [List.append_nil] at hn ⊢
      exact dir_of_child (by rw [hn]; simp)
    | cons c q =>
      obtain ⟨rfl, htail⟩ := List.cons_prefix_cons.1 hq
      simpa using ih hself hrest htail

/-- Nothing else changes. -/
theorem kind_mkdirs_of_ne {base names : Place N}
    (h : ∀ q, q <+: names → q ≠ [] → p ≠ base ++ q) : (t.mkdirs base names).kind p = t.kind p := by
  induction names generalizing t base with
  | nil => rfl
  | cons n names ih =>
    rw [mkdirs, ih, kind_mkdir_of_ne (h [n] ⟨names, rfl⟩ (by simp))]
    intro q hq _ hp
    exact h (n :: q) (List.cons_prefix_cons.2 ⟨rfl, hq⟩) (by simp) (by simpa using hp)

/-- The names in a directory. -/
def children (t : Tree N C) (p : Place N) : List N :=
  (t.nodes.filterMap fun e => if e.1.dropLast = p then e.1.getLast? else none).dedup

theorem mem_children : n ∈ t.children p ↔ t.kind (p ++ [n]) ≠ none := by
  unfold children kind kindIn
  rw [List.mem_dedup, List.mem_filterMap, if_neg (by simp), lookup_ne_none_iff]
  refine exists_congr fun e => and_congr_right fun _ => ?_
  constructor
  · intro h
    split_ifs at h with hdrop
    obtain ⟨init, hinit⟩ := List.getLast?_eq_some_iff.1 h
    rw [hinit, List.dropLast_concat] at hdrop
    rw [hinit, hdrop]
  · intro h
    rw [h]
    simp

/-- The place is a directory without entries. -/
def IsEmptyDir (t : Tree N C) (p : Place N) : Prop := t.kind p = some .dir ∧ t.children p = []

instance (t : Tree N C) (p : Place N) : Decidable (t.IsEmptyDir p) :=
  inferInstanceAs (Decidable (_ ∧ _))

theorem isEmptyDir_iff : t.IsEmptyDir p ↔ t.kind p = some .dir ∧ ∀ n, t.kind (p ++ [n]) = none := by
  unfold IsEmptyDir
  rw [List.eq_nil_iff_forall_not_mem]
  simp [mem_children]

/-- Below an empty directory there is nothing. -/
theorem IsEmptyDir.none_below (h : t.IsEmptyDir p) (hp : p <+: q) (hne : p ≠ q) : t.kind q = none := by
  obtain ⟨r, rfl⟩ := hp
  cases r with
  | nil => simp at hne
  | cons n r =>
    refine none_of_prefix_none ((isEmptyDir_iff.1 h).2 n) ?_
    exact ⟨r, by simp⟩

/-! ### Paths -/

/-- Follow a path, with `expand` for the links on the way. Only the last step of a path may lead to
something that is no directory, or to nothing. -/
def walkWith (t : Tree N C) (expand : Place N → Target N → List (Step N) → Option (Place N))
    (follow : Bool) : Place N → List (Step N) → Option (Place N)
  | cur, [] => some cur
  | cur, .here :: rest => walkWith t expand follow cur rest
  | cur, .up :: rest => walkWith t expand follow cur.dropLast rest
  | cur, .down n :: rest =>
      match t.kind (cur ++ [n]) with
      | some .dir => walkWith t expand follow (cur ++ [n]) rest
      | some (.link target) =>
          if rest.isEmpty && !follow then some (cur ++ [n]) else expand cur target rest
      | _ => if rest.isEmpty then some (cur ++ [n]) else none

/-- The place that a path leads to from a directory, through at most `hops` links. The last step is
followed when it leads to a link and `follow` is set. -/
def walk (t : Tree N C) (follow : Bool) : ℕ → Place N → List (Step N) → Option (Place N)
  | 0 => t.walkWith (fun _ _ _ => none) follow
  | hops + 1 =>
      t.walkWith (fun cur target rest =>
        walk t follow hops (if target.absolute then [] else cur) (target.steps ++ rest)) follow

/-- The number of links that the kernel follows in one path. -/
def maxLinks : ℕ := 40

/-- `symlink_metadata` from a directory. -/
def lstat (t : Tree N C) (base : Place N) (steps : List (Step N)) : Option (Kind N C) :=
  (t.walk false maxLinks base steps).bind t.kind

/-- `metadata` from a directory. -/
def stat (t : Tree N C) (base : Place N) (steps : List (Step N)) : Option (Kind N C) :=
  (t.walk true maxLinks base steps).bind t.kind

/-- No step of the path but the last one leads to a link. -/
def Plain (t : Tree N C) (base names : Place N) : Prop :=
  ∀ q, q <+: names → q ≠ [] → q ≠ names → ∀ target, t.kind (base ++ q) ≠ some (.link target)

theorem Plain.tail {base names : Place N} (h : t.Plain base (n :: names)) :
    t.Plain (base ++ [n]) names := by
  intro q hq _ hne target
  rw [List.append_assoc]
  exact h _ (List.cons_prefix_cons.2 ⟨rfl, hq⟩) (by simp) (by simpa using hne) target

section Names

variable {base names place : Place N} {follow : Bool} {hops : ℕ}
  {expand : Place N → Target N → List (Step N) → Option (Place N)}

theorem walkWith_names
    (hdir : ∀ q, q <+: names → q ≠ [] → q ≠ names → t.kind (base ++ q) = some .dir)
    (hlast : follow = true → ∀ target, t.kind (base ++ names) ≠ some (.link target)) :
    t.walkWith expand follow base (names.map .down) = some (base ++ names) := by
  induction names generalizing base with
  | nil => simp [walkWith]
  | cons n names ih =>
    rw [List.map_cons, walkWith]
    by_cases hnil : names = []
    · subst hnil
      cases hkind : t.kind (base ++ [n]) with
      | none => simp
      | some k =>
        cases k with
        | dir => simp [walkWith]
        | file c => simp
        | special => simp
        | link target =>
          cases follow with
          | false => simp
          | true => exact absurd hkind (hlast rfl target)
    · have hn : t.kind (base ++ [n]) = some .dir :=
        hdir [n] (by simp) (by simp) (by simpa using Ne.symm hnil)
      rw [hn, List.append_cons base n names]
      refine ih (fun q hq _ hne => ?_) (fun hfollow target => ?_)
      · rw [List.append_assoc]
        exact hdir _ (List.cons_prefix_cons.2 ⟨rfl, hq⟩) (by simp) (by simpa using hne)
      · simpa using hlast hfollow target

theorem eq_of_walkWith_names (hplain : t.Plain base names)
    (h : t.walkWith expand false base (names.map .down) = some place) : place = base ++ names := by
  induction names generalizing base with
  | nil =>
    rw [List.map_nil, walkWith, Option.some.injEq] at h
    rw [List.append_nil, h]
  | cons n names ih =>
    rw [List.map_cons, walkWith] at h
    by_cases hnil : names = []
    · subst hnil
      cases hkind : t.kind (base ++ [n]) with
      | none => simpa [hkind] using h.symm
      | some k => cases k <;> simpa [hkind, walkWith] using h.symm
    · cases hkind : t.kind (base ++ [n]) with
      | none => simp [hkind, hnil] at h
      | some k =>
        cases k with
        | dir =>
          rw [hkind] at h
          rw [List.append_cons]
          exact ih hplain.tail h
        | file c => simp [hkind, hnil] at h
        | special => simp [hkind, hnil] at h
        | link target =>
          refine absurd hkind (hplain [n] (by simp) (by simp) ?_ target)
          simpa using Ne.symm hnil

/-- A path that spells names through directories leads to the place that it spells. -/
theorem walk_names (hops : ℕ)
    (hdir : ∀ q, q <+: names → q ≠ [] → q ≠ names → t.kind (base ++ q) = some .dir)
    (hlast : follow = true → ∀ target, t.kind (base ++ names) ≠ some (.link target)) :
    t.walk follow hops base (names.map .down) = some (base ++ names) := by
  cases hops with
  | zero => exact walkWith_names hdir hlast
  | succ hops => exact walkWith_names hdir hlast

/-- Without links on the way a path leads to the place that it spells, if it leads anywhere. -/
theorem eq_of_walk_names (hplain : t.Plain base names)
    (h : t.walk false hops base (names.map .down) = some place) : place = base ++ names := by
  cases hops with
  | zero => exact eq_of_walkWith_names hplain h
  | succ hops => exact eq_of_walkWith_names hplain h

theorem walkWith_link {target : Target N} {q rest : Place N} (hrest : rest ≠ [])
    (hdir : ∀ r, r <+: q → r ≠ [] → r ≠ q → t.kind (base ++ r) = some .dir) (hq : q ≠ [])
    (hlink : t.kind (base ++ q) = some (.link target)) :
    t.walkWith expand follow base ((q ++ rest).map .down) =
      expand (base ++ q.dropLast) target (rest.map .down) := by
  induction q generalizing base with
  | nil => exact absurd rfl hq
  | cons n q ih =>
    rw [List.cons_append, List.map_cons, walkWith]
    by_cases hnil : q = []
    · subst hnil
      rw [hlink]
      simp [hrest]
    · have hn : t.kind (base ++ [n]) = some .dir :=
        hdir [n] (by simp) (by simp) (by simpa using Ne.symm hnil)
      rw [hn, List.dropLast_cons_of_ne_nil hnil, List.append_cons base n q.dropLast]
      refine ih (fun r hr _ hne => ?_) hnil (by simpa using hlink)
      rw [List.append_assoc]
      exact hdir _ (List.cons_prefix_cons.2 ⟨rfl, hr⟩) (by simp) (by simpa using hne)

/-- A link on the way replaces the part of the path that led to it. -/
theorem walk_link {target : Target N} {q rest : Place N} (hrest : rest ≠ [])
    (hdir : ∀ r, r <+: q → r ≠ [] → r ≠ q → t.kind (base ++ r) = some .dir) (hq : q ≠ [])
    (hlink : t.kind (base ++ q) = some (.link target)) :
    t.walk follow (hops + 1) base ((q ++ rest).map .down) =
      t.walk follow hops (if target.absolute then [] else base ++ q.dropLast)
        (target.steps ++ rest.map .down) :=
  walkWith_link hrest hdir hq hlink

/-- Without links on the way, `symlink_metadata` sees what the place holds. -/
theorem lstat_names (hplain : t.Plain base names) :
    t.lstat base (names.map .down) = t.kind (base ++ names) := by
  unfold lstat
  cases hwalk : t.walk false maxLinks base (names.map .down) with
  | some place => rw [eq_of_walk_names hplain hwalk, Option.bind_some]
  | none =>
    by_contra hkind
    have hsome : t.walk false maxLinks base (names.map .down) = some (base ++ names) := by
      refine walk_names maxLinks (fun q hq _ hne => ?_) (by simp)
      exact dir_of_prefix (fun hnone => hkind hnone.symm)
        ((List.prefix_append_right_inj base).2 hq) (by simpa using hne)
    rw [hsome] at hwalk
    cases hwalk

/-- The part of a path that stays in directories can be walked at once. -/
theorem walk_append {steps rest : List (Step N)} (hops : ℕ) (hup : .up ∉ steps)
    (hdir : ∀ q, q <+: spelled steps → q ≠ [] → t.kind (base ++ q) = some .dir) :
    t.walk follow hops base (steps ++ rest) = t.walk follow hops (base ++ spelled steps) rest := by
  have hgo (expand : Place N → Target N → List (Step N) → Option (Place N)) :
      t.walkWith expand follow base (steps ++ rest) =
        t.walkWith expand follow (base ++ spelled steps) rest := by
    induction steps generalizing base with
    | nil => simp [spelled]
    | cons step steps ih =>
      rw [List.mem_cons, not_or] at hup
      cases step with
      | here => exact ih hup.2 hdir
      | up => exact absurd rfl hup.1
      | down n =>
        have hn : t.kind (base ++ [n]) = some .dir := hdir [n] ⟨spelled steps, rfl⟩ (by simp)
        rw [List.cons_append, walkWith, hn]
        show t.walkWith expand follow (base ++ [n]) (steps ++ rest) =
          t.walkWith expand follow (base ++ (n :: spelled steps)) rest
        rw [List.append_cons base n (spelled steps)]
        refine ih hup.2 fun q hq _ => ?_
        rw [List.append_assoc]
        exact hdir (n :: q) (List.cons_prefix_cons.2 ⟨rfl, hq⟩) (by simp)
  cases hops with
  | zero => exact hgo _
  | succ hops => exact hgo _

theorem walkWith_split (hops : ℕ) {a b : List (Step N)} (hwalk : t.walk true hops = t.walkWith expand true)
    (hexpand : ∀ cur target a, expand cur target (a ++ b) = some place →
      ∃ left mid, expand cur target a = some mid ∧ t.walk true left mid b = some place)
    (h : t.walkWith expand true base (a ++ b) = some place) :
    ∃ left mid, t.walkWith expand true base a = some mid ∧ t.walk true left mid b = some place := by
  induction a generalizing base with
  | nil => exact ⟨hops, base, rfl, by rw [hwalk]; exact h⟩
  | cons step a ih =>
    cases step with
    | here => exact ih h
    | up => exact ih h
    | down n =>
      rw [List.cons_append, walkWith] at h
      rw [walkWith]
      -- where the path ends, both parts do
      have hend (hlast : (if (a ++ b).isEmpty then some (base ++ [n]) else none) = some place) :
          ∃ left mid, (if a.isEmpty then some (base ++ [n]) else none) = some mid ∧
            t.walk true left mid b = some place := by
        split_ifs at hlast with hempty
        obtain ⟨rfl, rfl⟩ := List.append_eq_nil_iff.1 (List.isEmpty_iff.1 hempty)
        exact ⟨hops, base ++ [n], rfl, by rw [hwalk]; exact hlast⟩
      cases hkind : t.kind (base ++ [n]) with
      | none => simpa [hkind] using hend (by simpa [hkind] using h)
      | some k =>
        cases k with
        | dir => simpa [hkind] using ih (by simpa [hkind] using h)
        | link target => simpa [hkind] using hexpand _ _ _ (by simpa [hkind] using h)
        | file c => simpa [hkind] using hend (by simpa [hkind] using h)
        | special => simpa [hkind] using hend (by simpa [hkind] using h)

/-- A path that is followed to its end is followed to the end of its first part, and from there with the links
that are left. -/
theorem walk_split {a b : List (Step N)} (h : t.walk true hops base (a ++ b) = some place) :
    ∃ left mid, t.walk true hops base a = some mid ∧ t.walk true left mid b = some place := by
  induction hops generalizing base a with
  | zero => exact walkWith_split 0 rfl (fun _ _ _ hnone => absurd hnone nofun) h
  | succ hops ih =>
    refine walkWith_split (hops + 1) rfl (fun cur target a h => ?_) h
    rw [← List.append_assoc] at h
    exact ih h

/-- `read_dir` from a directory: the names in the directory that a path leads to. -/
def readDir (t : Tree N C) (base : Place N) (steps : List (Step N)) : Option (List N) :=
  match t.walk true maxLinks base steps with
  | none => none
  | some place => if t.kind place = some .dir then some (t.children place) else none

/-- What a path leads to lies in the directory before it. -/
theorem stat_down {steps rest : List (Step N)} (h : t.stat base (steps ++ .down n :: rest) ≠ none) :
    ∃ mid, t.walk true maxLinks base steps = some mid ∧ t.kind (mid ++ [n]) ≠ none := by
  unfold stat at h
  cases hwalk : t.walk true maxLinks base (steps ++ .down n :: rest) with
  | none => exact absurd (by rw [hwalk]; rfl) h
  | some place =>
    rw [hwalk, Option.bind_some] at h
    obtain ⟨left, mid, hmid, hplace⟩ := walk_split hwalk
    refine ⟨mid, hmid, fun hnone => h ?_⟩
    have hlast (expand : Place N → Target N → List (Step N) → Option (Place N))
        (hplace : t.walkWith expand true mid (.down n :: rest) = some place) : t.kind place = none := by
      rw [walkWith, hnone] at hplace
      simp only [] at hplace
      split_ifs at hplace
      rwa [← Option.some.inj hplace]
    cases left with
    | zero => exact hlast _ hplace
    | succ left => exact hlast _ hplace

/-- What a path leads to is listed in the directory before it. -/
theorem mem_readDir {steps rest : List (Step N)} {names : List N} (hnames : t.readDir base steps = some names)
    (h : t.stat base (steps ++ .down n :: rest) ≠ none) : n ∈ names := by
  obtain ⟨mid, hmid, hkind⟩ := stat_down h
  unfold readDir at hnames
  simp only [hmid] at hnames
  split_ifs at hnames
  rwa [← Option.some.inj hnames, mem_children]

/-- Before a name a path leads to a directory. -/
theorem stat_of_down {steps rest : List (Step N)} (h : t.stat base (steps ++ .down n :: rest) ≠ none) :
    t.stat base steps = some .dir := by
  obtain ⟨mid, hmid, hkind⟩ := stat_down h
  rw [stat, hmid, Option.bind_some]
  exact dir_of_child hkind

theorem readDir_of_stat {steps : List (Step N)} (h : t.stat base steps = some .dir) :
    ∃ names, t.readDir base steps = some names ∧ names.Nodup := by
  unfold stat at h
  unfold readDir
  cases hwalk : t.walk true maxLinks base steps with
  | none => simp [hwalk] at h
  | some place =>
    rw [hwalk, Option.bind_some] at h
    exact ⟨t.children place, by simp [h], List.nodup_dedup _⟩

theorem walkWith_false_of_true {steps : List (Step N)}
    {expand' : Place N → Target N → List (Step N) → Option (Place N)}
    (hexpand : ∀ cur target rest, expand cur target rest = some place →
      ∃ place', expand' cur target rest = some place' ∧ t.kind place' ≠ none)
    (h : t.walkWith expand true base steps = some place) (hkind : t.kind place ≠ none) :
    ∃ place', t.walkWith expand' false base steps = some place' ∧ t.kind place' ≠ none := by
  induction steps generalizing base with
  | nil =>
    refine ⟨base, rfl, ?_⟩
    rwa [Option.some.inj h]
  | cons step steps ih =>
    cases step with
    | here => exact ih h
    | up => exact ih h
    | down n =>
      rw [walkWith] at h ⊢
      cases hn : t.kind (base ++ [n]) with
      | none =>
        simp only [hn] at h
        split_ifs at h
        rw [← Option.some.inj h] at hkind
        exact absurd hn hkind
      | some k =>
        cases k with
        | dir => simpa [hn] using ih (by simpa [hn] using h)
        | file c =>
          simp only [hn] at h ⊢
          split_ifs at h ⊢
          exact ⟨base ++ [n], rfl, by rw [hn]; simp⟩
        | special =>
          simp only [hn] at h ⊢
          split_ifs at h ⊢
          exact ⟨base ++ [n], rfl, by rw [hn]; simp⟩
        | link target =>
          -- the link itself is there
          simp only [hn, Bool.not_true, Bool.and_false, Bool.false_eq_true, if_false] at h
          dsimp only
          split_ifs
          · exact ⟨base ++ [n], rfl, by rw [hn]; simp⟩
          · exact hexpand _ _ _ h

theorem walk_false_of_true {steps : List (Step N)} (h : t.walk true hops base steps = some place)
    (hkind : t.kind place ≠ none) :
    ∃ place', t.walk false hops base steps = some place' ∧ t.kind place' ≠ none := by
  induction hops generalizing base steps with
  | zero => exact walkWith_false_of_true (fun _ _ _ (hnone : none = some place) => nomatch hnone) h hkind
  | succ hops ih => exact walkWith_false_of_true (fun _ _ _ h => ih h) h hkind

/-- What `metadata` finds, `symlink_metadata` finds too. -/
theorem lstat_ne_none {steps : List (Step N)} (h : t.stat base steps ≠ none) :
    t.lstat base steps ≠ none := by
  unfold stat at h
  cases hwalk : t.walk true maxLinks base steps with
  | none => exact absurd (by rw [hwalk]; rfl) h
  | some place =>
    rw [hwalk, Option.bind_some] at h
    obtain ⟨place', hwalk', hkind⟩ := walk_false_of_true hwalk h
    rw [lstat, hwalk', Option.bind_some]
    exact hkind

/-- The first place on the way that is there and is no directory; the search ends where nothing is. -/
def obstacle (t : Tree N C) (base : Place N) : Place N → Place N → Option (Place N)
  | _, [] => none
  | done, n :: rest =>
      match t.lstat base ((done ++ [n]).map .down) with
      | none => none
      | some .dir => obstacle t base (done ++ [n]) rest
      | some _ => some (done ++ [n])

theorem exists_cons_of_prefix {α : Type} {a : α} {q l : List α} (hq : q <+: a :: l) (hnil : q ≠ []) :
    ∃ q', q = a :: q' ∧ q' <+: l := by
  cases q with
  | nil => exact absurd rfl hnil
  | cons c q =>
    obtain ⟨rfl, htail⟩ := List.cons_prefix_cons.1 hq
    exact ⟨q, rfl, htail⟩

theorem obstacle_eq_none {done : Place N} (hdone : ∀ q, q <+: done → t.kind (base ++ q) = some .dir) :
    t.obstacle base done names = none ↔
      ∀ q, q <+: names → q ≠ [] →
        t.kind (base ++ (done ++ q)) = none ∨ t.kind (base ++ (done ++ q)) = some .dir := by
  induction names generalizing done with
  | nil => simp [obstacle]
  | cons n names ih =>
    have hplain : t.Plain base (done ++ [n]) := by
      intro q hq _ hne target hlink
      obtain hq | hq := List.prefix_concat_iff.1 hq
      · exact hne hq
      · rw [hdone q hq] at hlink
        cases hlink
    have hfirst : [n] <+: n :: names := ⟨names, rfl⟩
    rw [obstacle, lstat_names hplain]
    cases hkind : t.kind (base ++ (done ++ [n])) with
    | none =>
      refine iff_of_true rfl fun q hq hnil => .inl ?_
      obtain ⟨q, rfl, -⟩ := exists_cons_of_prefix hq hnil
      exact none_of_prefix_none hkind ⟨q, by simp⟩
    | some k =>
      by_cases hdir : k = .dir
      · subst hdir
        have hdone' : ∀ q, q <+: done ++ [n] → t.kind (base ++ q) = some .dir := by
          intro q hq
          obtain rfl | hq := List.prefix_concat_iff.1 hq
          · exact hkind
          · exact hdone q hq
        refine (ih hdone').trans ⟨fun h q hq hnil => ?_, fun h q hq hnil => ?_⟩
        · obtain ⟨q, rfl, hrest⟩ := exists_cons_of_prefix hq hnil
          by_cases hempty : q = []
          · subst hempty
            exact .inr hkind
          · simpa using h q hrest hempty
        · simpa using h (n :: q) (List.cons_prefix_cons.2 ⟨rfl, hq⟩) (by simp)
      · refine iff_of_false ?_ fun h => ?_
        · cases k <;> simp_all
        · obtain hnone | hdir' := h [n] hfirst (by simp)
          · rw [hkind] at hnone
            cases hnone
          · rw [hkind] at hdir'
            exact hdir (Option.some.inj hdir')

end Names

/-! ### What is left after removals -/

/-- Everything in the first tree is in the second. -/
def Sub (t t' : Tree N C) : Prop := ∀ p k, t.kind p = some k → t'.kind p = some k

theorem Sub.refl (t : Tree N C) : t.Sub t := fun _ _ h => h

theorem Sub.trans {t'' : Tree N C} (h : t.Sub t') (h' : t'.Sub t'') : t.Sub t'' :=
  fun p k hk => h' p k (h p k hk)

theorem Sub.none (h : t.Sub t') (hp : t'.kind p = none) : t.kind p = none := by
  by_contra hkind
  obtain ⟨k, hk⟩ := Option.ne_none_iff_exists'.1 hkind
  rw [h p k hk] at hp
  cases hp

theorem Sub.plain {base names : Place N} (h : t.Sub t') (hplain : t'.Plain base names) :
    t.Plain base names :=
  fun q hq hnil hne target hlink => hplain q hq hnil hne target (h _ _ hlink)

theorem remove_sub (hp : p ≠ []) : (t.remove p).Sub t := by
  intro q k hk
  rw [kind_remove hp] at hk
  split_ifs at hk
  exact hk

/-! ### System calls -/

section Calls

variable {base : Place N} {steps : List (Step N)}

/-- `remove_file`: unlink a place that is no directory. -/
def removeFile (t : Tree N C) (base : Place N) (steps : List (Step N)) : Option (Tree N C) :=
  match t.walk false maxLinks base steps with
  | none => none
  | some p => if t.kind p = none ∨ t.kind p = some .dir then none else some (t.remove p)

/-- `remove_dir_all` of a place that is a directory. -/
def removeDirAll (t : Tree N C) (base : Place N) (steps : List (Step N)) : Option (Tree N C) :=
  match t.walk false maxLinks base steps with
  | none => none
  | some p => if p ≠ [] ∧ t.kind p = some .dir then some (t.remove p) else none

/-- `remove_dir`: only an empty directory can be removed. -/
def removeDir (t : Tree N C) (base : Place N) (steps : List (Step N)) : Option (Tree N C) :=
  match t.walk false maxLinks base steps with
  | none => none
  | some p => if p ≠ [] ∧ t.IsEmptyDir p then some (t.remove p) else none

theorem removeFile_eq_some : t.removeFile base steps = some t' ↔
    ∃ p, t.walk false maxLinks base steps = some p ∧ t.kind p ≠ none ∧ t.kind p ≠ some .dir ∧
      t' = t.remove p := by
  unfold removeFile
  cases t.walk false maxLinks base steps with
  | none => simp
  | some p =>
    by_cases hp : t.kind p = none ∨ t.kind p = some .dir
    · simp only [if_pos hp, Option.some.injEq, exists_eq_left']
      exact iff_of_false nofun fun h => hp.elim h.1 h.2.1
    · simp only [if_neg hp, Option.some.injEq, exists_eq_left']
      rw [not_or] at hp
      exact ⟨fun h => ⟨hp.1, hp.2, h.symm⟩, fun h => h.2.2.symm⟩

theorem removeDirAll_eq_some : t.removeDirAll base steps = some t' ↔
    ∃ p, t.walk false maxLinks base steps = some p ∧ p ≠ [] ∧ t.kind p = some .dir ∧
      t' = t.remove p := by
  unfold removeDirAll
  cases t.walk false maxLinks base steps with
  | none => simp
  | some p =>
    by_cases hp : p ≠ [] ∧ t.kind p = some .dir
    · simp [hp, eq_comm]
    · simp only [if_neg hp, Option.some.injEq, exists_eq_left']
      exact iff_of_false nofun fun h => hp ⟨h.1, h.2.1⟩

theorem removeDir_eq_some : t.removeDir base steps = some t' ↔
    ∃ p, t.walk false maxLinks base steps = some p ∧ p ≠ [] ∧ t.IsEmptyDir p ∧
      t' = t.remove p := by
  unfold removeDir
  cases t.walk false maxLinks base steps with
  | none => simp
  | some p =>
    by_cases hp : p ≠ [] ∧ t.IsEmptyDir p
    · simp [hp, eq_comm]
    · simp only [if_neg hp, Option.some.injEq, exists_eq_left']
      exact iff_of_false nofun fun h => hp ⟨h.1, h.2.1⟩

end Calls

end Tree

end Kyth.FileTree
