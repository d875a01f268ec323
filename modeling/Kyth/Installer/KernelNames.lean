import Kyth.Installer.Staging
import Mathlib.Data.List.DropRight

/-!
# Kernel names of disks and partitions (`on_selected_disk`, `validate_target_request`)

Two functions decide from the names whether a partition belongs to a disk. The validation of a journal's
target asks for the separator `p` exactly when the name of the disk ends in a digit, as the kernel does when
it names a partition. `on_selected_disk` takes the separator for optional, so the partitions of `sdap` are
also partitions of `sda` for it.

`onSelectedDisk_partition_iff` says that this is the only way in which it goes wrong.
-/

namespace Kyth.Storage

open Str
open Kyth.Daemon (partitionNameMatches)

/-! ### Kernel names -/

/-- The letters that number a disk: `a` to `z`, then `aa`, and so on. -/
structure Letters where
  chars : List Char
  nonempty : chars ≠ []
  lower : ∀ c ∈ chars, 97 ≤ c.toNat ∧ c.toNat ≤ 122
  deriving DecidableEq

theorem Letters.ext_chars {a b : Letters} (h : a.chars = b.chars) : a = b := by
  cases a
  cases b
  cases h
  rfl

/-- The disks that the installer knows, by the driver that names them. -/
inductive DiskName
  | sd (letters : Letters)
  | vd (letters : Letters)
  | nvme (controller device : ℕ)
  | mmcblk (index : ℕ)
  deriving DecidableEq

namespace DiskName

/-- The decimal digits of a number. -/
def decimal (n : ℕ) : List Char := (toString n).toList

/-- The name up to the last number. -/
def stem : DiskName → List Char
  | sd letters => 's' :: 'd' :: letters.chars
  | vd letters => 'v' :: 'd' :: letters.chars
  | nvme controller _ => "nvme".toList ++ decimal controller ++ ['n']
  | mmcblk _ => "mmcblk".toList

/-- The last number of the name. -/
def number : DiskName → List Char
  | sd _ => []
  | vd _ => []
  | nvme _ device => decimal device
  | mmcblk index => decimal index

/-- The name of the disk. -/
def name (d : DiskName) : String := String.ofList (d.stem ++ d.number)

/-- What stands between the name of the disk and the number of a partition. -/
def separator (d : DiskName) : List Char := if d.number = [] then [] else ['p']

theorem separator_cases (d : DiskName) : d.separator = [] ∨ d.separator = ['p'] := by
  unfold separator
  split
  · exact .inl rfl
  · exact .inr rfl

/-- The name of a partition. -/
def partition (d : DiskName) (n : ℕ) : String :=
  String.ofList (d.stem ++ d.number ++ d.separator ++ decimal n)

end DiskName

/-! ### Trailing digits -/

/-- A text without the digits at its end. -/
def base (l : List Char) : List Char := l.rdropWhile isAsciiDigit

theorem base_append {l digits : List Char} (h : ∀ c ∈ digits, isAsciiDigit c = true) :
    base (l ++ digits) = base l := by
  induction digits using List.reverseRecOn with
  | nil => rw [List.append_nil]
  | append_singleton digits c ih =>
    have hc : isAsciiDigit c = true := h c (by simp)
    rw [← List.append_assoc, base, List.rdropWhile_concat_pos _ _ _ hc]
    exact ih fun d hd => h d (List.mem_append_left _ hd)

theorem base_concat {l : List Char} {c : Char} (h : isAsciiDigit c = false) : base (l ++ [c]) = l ++ [c] :=
  List.rdropWhile_concat_neg _ _ _ (by simp [h])

theorem decimal_digits (n : ℕ) : ∀ c ∈ DiskName.decimal n, isAsciiDigit c = true := by
  intro c hc
  rw [DiskName.decimal, Nat.toString_eq_ofList_toDigits, String.toList_ofList] at hc
  have hdigit := Nat.isDigit_of_mem_toDigits (by decide) (by decide) hc
  simp only [Char.isDigit, ge_iff_le, Bool.and_eq_true, decide_eq_true_eq] at hdigit
  simp only [isAsciiDigit, Bool.and_eq_true, decide_eq_true_eq]
  exact hdigit

theorem decimal_ne_nil (n : ℕ) : DiskName.decimal n ≠ [] := by
  rw [DiskName.decimal, Nat.toString_eq_ofList_toDigits, String.toList_ofList]
  exact Nat.toDigits_ne_nil

theorem decimal_injective {m n : ℕ} (h : DiskName.decimal m = DiskName.decimal n) : m = n := by
  rw [DiskName.decimal, DiskName.decimal, Nat.toString_eq_ofList_toDigits,
    Nat.toString_eq_ofList_toDigits, String.toList_ofList, String.toList_ofList] at h
  rw [← Nat.ofDigitChars_ten_toDigits (n := m), h, Nat.ofDigitChars_ten_toDigits]

/-! ### The two tests -/

theorem stripPrefix_eq_some {s p t : String} : stripPrefix s p = some t ↔ s.toList = p.toList ++ t.toList := by
  unfold stripPrefix startsWith
  by_cases h : p.toList <+: s.toList
  · rw [if_pos (List.isPrefixOf_iff_prefix.2 h)]
    obtain ⟨rest, hrest⟩ := h
    rw [← hrest, List.drop_left, Option.some.injEq, List.append_cancel_left_eq]
    constructor
    · rintro rfl
      rw [String.toList_ofList]
    · intro heq
      rw [heq, String.ofList_toList]
  · rw [if_neg (fun h' => h (List.isPrefixOf_iff_prefix.1 h'))]
    simp only [reduceCtorEq, false_iff]
    rintro heq
    exact h ⟨t.toList, heq.symm⟩

/-- What `on_selected_disk` accepts: the name of the disk, a separator or none, and digits or nothing, but
not the name alone. -/
theorem onSelectedDisk_iff {name disk : String} :
    onSelectedDisk name disk = true ↔ ∃ sep digits, (sep = [] ∨ sep = ['p']) ∧ sep ++ digits ≠ [] ∧
      name.toList = disk.toList ++ (sep ++ digits) ∧ ∀ c ∈ digits, isAsciiDigit c = true := by
  unfold onSelectedDisk
  constructor
  · intro h
    cases hsuffix : stripPrefix name disk with
    | none => simp [hsuffix] at h
    | some suffix =>
      simp only [hsuffix, Bool.and_eq_true, bne_iff_ne, ne_eq, all, List.all_eq_true] at h
      obtain ⟨hne, hall⟩ := h
      have hname := stripPrefix_eq_some.1 hsuffix
      have hnonempty : suffix.toList ≠ [] := fun h' => hne (String.toList_eq_nil_iff.1 h')
      cases hp : stripPrefix suffix "p" with
      | none =>
        rw [hp] at hall
        exact ⟨[], suffix.toList, .inl rfl, hnonempty, hname, hall⟩
      | some rest =>
        rw [hp] at hall
        have hrest := stripPrefix_eq_some.1 hp
        refine ⟨['p'], rest.toList, .inr rfl, by simp, ?_, hall⟩
        rw [hname, hrest]
        rfl
  · rintro ⟨sep, digits, hsep, hne, hname, hdigits⟩
    have hsuffix : stripPrefix name disk = some (String.ofList (sep ++ digits)) :=
      stripPrefix_eq_some.2 (by rw [hname, String.toList_ofList])
    rw [hsuffix]
    have hne' : String.ofList (sep ++ digits) ≠ "" := fun h =>
      hne (by rw [← String.toList_ofList (l := sep ++ digits), h]; rfl)
    simp only [Bool.and_eq_true, bne_iff_ne, ne_eq, hne', not_false_eq_true, all, List.all_eq_true, true_and]
    obtain rfl | rfl := hsep
    · have hp : stripPrefix (String.ofList ([] ++ digits)) "p" = none := by
        rw [Option.eq_none_iff_forall_ne_some]
        intro rest hrest
        have hlist := stripPrefix_eq_some.1 hrest
        rw [String.toList_ofList, List.nil_append] at hlist
        have := hdigits 'p' (by rw [hlist]; simp)
        exact absurd this (by decide)
      rw [hp, Option.getD_none, String.toList_ofList]
      exact hdigits
    · have hp : stripPrefix (String.ofList (['p'] ++ digits)) "p" = some (String.ofList digits) :=
        stripPrefix_eq_some.2 (by simp)
      rw [hp, Option.getD_some, String.toList_ofList]
      exact hdigits

/-- The separator that the naming rule asks for. -/
def requiredSeparator (disk : String) : List Char :=
  if (disk.toList.getLast?.any isAsciiDigit) = true then ['p'] else []

/-- The rule of the journal's target, for the text behind the name of the disk. -/
theorem partitionNameMatches_eq {name disk : String} :
    partitionNameMatches disk name = true ↔ ∃ digits, digits ≠ [] ∧
      ((stripPrefix name disk).getD "").toList = requiredSeparator disk ++ digits ∧
        ∀ c ∈ digits, isAsciiDigit c = true := by
  unfold partitionNameMatches requiredSeparator
  generalize (stripPrefix name disk).getD "" = suffix
  by_cases hdigit : (disk.toList.getLast?.any isAsciiDigit) = true
  · simp only [if_pos hdigit]
    cases hp : stripPrefix suffix "p" with
    | none =>
      simp only [Bool.false_eq_true, false_iff, not_exists, not_and]
      intro digits _ hlist
      have hsome : stripPrefix suffix "p" = some (String.ofList digits) :=
        stripPrefix_eq_some.2 (by rw [hlist]; simp)
      rw [hp] at hsome
      cases hsome
    | some rest =>
      have hrest := stripPrefix_eq_some.1 hp
      simp only [Bool.and_eq_true, bne_iff_ne, ne_eq, all, List.all_eq_true]
      constructor
      · rintro ⟨hne, hall⟩
        exact ⟨rest.toList, fun h => hne (String.toList_eq_nil_iff.1 h), hrest, hall⟩
      · rintro ⟨digits, hne, hlist, hall⟩
        rw [hrest] at hlist
        obtain rfl : rest.toList = digits := List.append_cancel_left hlist
        exact ⟨fun h => hne (String.toList_eq_nil_iff.2 h), hall⟩
  · simp only [if_neg hdigit, Bool.and_eq_true, bne_iff_ne, ne_eq, all, List.all_eq_true, List.nil_append]
    constructor
    · rintro ⟨hne, hall⟩
      exact ⟨suffix.toList, fun h => hne (String.toList_eq_nil_iff.1 h), rfl, hall⟩
    · rintro ⟨digits, hne, rfl, hall⟩
      exact ⟨fun h => hne (String.toList_eq_nil_iff.2 h), hall⟩

/-- What the rule of the journal's target accepts. -/
theorem partitionNameMatches_iff {name disk : String} :
    partitionNameMatches disk name = true ↔ ∃ digits, digits ≠ [] ∧
      name.toList = disk.toList ++ (requiredSeparator disk ++ digits) ∧
        ∀ c ∈ digits, isAsciiDigit c = true := by
  rw [partitionNameMatches_eq]
  cases hsuffix : stripPrefix name disk with
  | none =>
    constructor
    · rintro ⟨digits, hne, hlist, -⟩
      exact absurd (List.append_eq_nil_iff.1 hlist.symm).2 hne
    · rintro ⟨digits, -, hlist, -⟩
      have hsome : stripPrefix name disk = some (String.ofList (requiredSeparator disk ++ digits)) :=
        stripPrefix_eq_some.2 (by rw [hlist, String.toList_ofList])
      rw [hsuffix] at hsome
      cases hsome
  | some suffix =>
    rw [stripPrefix_eq_some.1 hsuffix]
    simp only [Option.getD_some, List.append_cancel_left_eq]

/-! ### Names -/

namespace DiskName

@[simp] theorem stem_sd (letters : Letters) : (sd letters).stem = 's' :: 'd' :: letters.chars := rfl

@[simp] theorem stem_vd (letters : Letters) : (vd letters).stem = 'v' :: 'd' :: letters.chars := rfl

@[simp] theorem stem_nvme (controller device : ℕ) :
    (nvme controller device).stem = "nvme".toList ++ decimal controller ++ ['n'] := rfl

@[simp] theorem stem_mmcblk (index : ℕ) : (mmcblk index).stem = "mmcblk".toList := rfl

theorem nvme_chars : "nvme".toList = ['n', 'v', 'm', 'e'] := by decide

theorem mmcblk_chars : "mmcblk".toList = ['m', 'm', 'c', 'b', 'l', 'k'] := by decide

theorem stem_ne_nil (d : DiskName) : d.stem ≠ [] := by
  cases d with
  | sd letters => exact List.cons_ne_nil _ _
  | vd letters => exact List.cons_ne_nil _ _
  | nvme controller namespaceId => exact List.append_ne_nil_of_right_ne_nil _ (List.cons_ne_nil _ _)
  | mmcblk index =>
    rw [stem_mmcblk, mmcblk_chars]
    exact List.cons_ne_nil _ _

/-- The digits at the end of a name are its last number. -/
theorem base_stem (d : DiskName) : base d.stem = d.stem := by
  have hletters : ∀ (letters : Letters) (front : List Char), base (front ++ letters.chars) =
      front ++ letters.chars := by
    intro letters front
    refine List.rdropWhile_eq_self_iff.2 fun hne => ?_
    have hlast := letters.lower _ (List.getLast_mem letters.nonempty)
    rw [List.getLast_append_of_ne_nil hne letters.nonempty]
    simp only [isAsciiDigit, Bool.and_eq_true, decide_eq_true_eq, not_and]
    omega
  cases d with
  | sd letters => exact hletters letters ['s', 'd']
  | vd letters => exact hletters letters ['v', 'd']
  | nvme controller device =>
    rw [stem_nvme]
    exact base_concat (by decide)
  | mmcblk index =>
    rw [stem_mmcblk, mmcblk_chars]
    decide

theorem number_digits (d : DiskName) : ∀ c ∈ d.number, isAsciiDigit c = true := by
  cases d with
  | sd letters => simp [number]
  | vd letters => simp [number]
  | nvme controller device => exact decimal_digits device
  | mmcblk index => exact decimal_digits index

/-- The name of a partition up to its number. -/
def head (d : DiskName) : List Char := d.stem ++ d.number ++ d.separator

theorem base_head (d : DiskName) : base d.head = d.head := by
  unfold head separator
  by_cases hnumber : d.number = []
  · rw [if_pos hnumber, hnumber, List.append_nil, List.append_nil, base_stem]
  · rw [if_neg hnumber]
    exact base_concat (by decide)

theorem eq_of_name {d e : DiskName} (h : d.stem ++ d.number = e.stem ++ e.number) : d = e := by
  have hstem : d.stem = e.stem := by
    have hbase := congrArg base h
    rwa [base_append d.number_digits, base_append e.number_digits, base_stem, base_stem] at hbase
  rw [hstem, List.append_cancel_left_eq] at h
  cases d with
  | sd letters =>
    cases e with
    | sd letters' =>
      obtain rfl := Letters.ext_chars (List.cons.inj (List.cons.inj hstem).2).2
      rfl
    | _ => simp [nvme_chars, mmcblk_chars] at hstem
  | vd letters =>
    cases e with
    | vd letters' =>
      obtain rfl := Letters.ext_chars (List.cons.inj (List.cons.inj hstem).2).2
      rfl
    | _ => simp [nvme_chars, mmcblk_chars] at hstem
  | nvme controller device =>
    cases e with
    | nvme controller' device' =>
      obtain rfl := decimal_injective (List.append_cancel_left (List.append_cancel_right hstem))
      obtain rfl := decimal_injective h
      rfl
    | _ => simp [nvme_chars, mmcblk_chars] at hstem
  | mmcblk index =>
    cases e with
    | mmcblk index' =>
      obtain rfl := decimal_injective h
      rfl
    | _ => simp [nvme_chars, mmcblk_chars] at hstem

theorem name_injective {d e : DiskName} (h : d.name = e.name) : d = e := by
  refine eq_of_name ?_
  have hlist := congrArg String.toList h
  rwa [name, name, String.toList_ofList, String.toList_ofList] at hlist

/-- The separator is the one that the naming rule asks for. -/
theorem requiredSeparator_name (d : DiskName) (dir : String) :
    requiredSeparator (dir ++ d.name) = d.separator := by
  have hlist : (dir ++ d.name).toList = dir.toList ++ d.stem ++ d.number := by
    rw [String.toList_append, name, String.toList_ofList, List.append_assoc]
  unfold requiredSeparator separator
  rw [hlist]
  by_cases hnumber : d.number = []
  · have hlast : (d.stem.getLast d.stem_ne_nil) ∈ d.stem := List.getLast_mem _
    have hdigit := List.rdropWhile_eq_self_iff.1 d.base_stem d.stem_ne_nil
    rw [hnumber, List.append_nil, List.getLast?_append_of_ne_nil _ d.stem_ne_nil,
      List.getLast?_eq_some_getLast d.stem_ne_nil, if_pos rfl]
    exact if_neg hdigit
  · have hdigit := d.number_digits _ (List.getLast_mem hnumber)
    rw [List.getLast?_append_of_ne_nil _ hnumber, List.getLast?_eq_some_getLast hnumber, if_neg hnumber]
    exact if_pos hdigit

theorem number_eq_nil_of_stem {d e : DiskName} (h : d.stem = e.stem) (he : e.number = []) :
    d.number = [] := by
  cases e with
  | sd letters => cases d <;> first | rfl | simp [nvme_chars, mmcblk_chars] at h
  | vd letters => cases d <;> first | rfl | simp [nvme_chars, mmcblk_chars] at h
  | nvme controller device => exact absurd he (decimal_ne_nil _)
  | mmcblk index => exact absurd he (decimal_ne_nil _)

/-- No disk whose name ends in a number has a name that is the stem of another one, up to the separator. -/
theorem stem_ne_numbered {d e : DiskName} (he : e.number ≠ []) :
    d.stem ≠ e.stem ++ e.number ++ ['p'] := by
  intro h
  cases e with
  | sd letters => exact he rfl
  | vd letters => exact he rfl
  | nvme controller device =>
    cases d with
    | nvme controller' device' =>
      have hlast : (nvme controller' device').stem.getLast? = some 'n' := List.getLast?_concat
      rw [h, List.getLast?_concat] at hlast
      exact absurd hlast (by decide)
    | _ => simp [number] at h
  | mmcblk index =>
    cases d with
    | mmcblk index' =>
      have hlast : (mmcblk index').stem.getLast? = some 'k' := by
        show "mmcblk".toList.getLast? = some 'k'
        decide
      rw [h, List.getLast?_concat] at hlast
      exact absurd hlast (by decide)
    | _ => simp [number] at h

/-- Which names of partitions begin with the name of a disk and a separator: those of the disk itself, and
those of the disk whose name has the separator for its last letter. -/
theorem head_cases {d e : DiskName} {sep : List Char} (hsep : sep = [] ∨ sep = ['p']) {n : ℕ}
    {digits : List Char} (hdigits : ∀ c ∈ digits, isAsciiDigit c = true)
    (h : e.head ++ decimal n = d.stem ++ d.number ++ (sep ++ digits)) :
    d = e ∧ sep = d.separator ∨ sep = ['p'] ∧ e.name = d.name ++ "p" := by
  have hbase := congrArg base h
  rw [base_append (decimal_digits n), base_head, ← List.append_assoc, base_append hdigits] at hbase
  obtain rfl | rfl := hsep
  · -- no separator: the name goes back to the stem of the disk
    rw [List.append_nil, base_append d.number_digits, base_stem] at hbase
    by_cases hnumber : e.number = []
    · have hhead : e.head = e.stem := by
        rw [head, separator, if_pos hnumber, hnumber, List.append_nil, List.append_nil]
      have hstem : d.stem = e.stem := by rw [← hbase, hhead]
      have hnil := number_eq_nil_of_stem hstem hnumber
      refine .inl ⟨eq_of_name ?_, by rw [separator, if_pos hnil]⟩
      rw [hstem, hnil, hnumber]
    · rw [head, separator, if_neg hnumber] at hbase
      exact absurd hbase.symm (stem_ne_numbered hnumber)
  · rw [base_concat (by decide)] at hbase
    by_cases hnumber : e.number = []
    · refine .inr ⟨rfl, ?_⟩
      rw [head, separator, if_pos hnumber, List.append_nil] at hbase
      rw [name, hbase, String.ofList_append]
      rfl
    · rw [head, separator, if_neg hnumber] at hbase
      obtain rfl := eq_of_name (List.append_cancel_right hbase)
      exact .inl ⟨rfl, by rw [separator, if_neg hnumber]⟩

theorem partition_toList (d : DiskName) (n : ℕ) (dir : String) :
    (dir ++ d.partition n).toList = dir.toList ++ (d.head ++ decimal n) := by
  rw [String.toList_append, partition, String.toList_ofList, head]

theorem name_toList (d : DiskName) (dir : String) :
    (dir ++ d.name).toList = dir.toList ++ (d.stem ++ d.number) := by
  rw [String.toList_append, name, String.toList_ofList]

/-- A disk whose name ends in the separator has no number. -/
theorem head_of_name {d e : DiskName} (h : e.name = d.name ++ "p") :
    e.head = d.stem ++ d.number ++ ['p'] := by
  have hlist : e.stem ++ e.number = d.stem ++ d.number ++ ['p'] := by
    have hlist := congrArg String.toList h
    rwa [name, name, String.toList_append, String.toList_ofList, String.toList_ofList] at hlist
  have hnumber : e.number = [] := by
    by_contra hne
    have hdigit := e.number_digits _ (List.getLast_mem hne)
    have hlast := congrArg List.getLast? hlist
    rw [List.getLast?_append_of_ne_nil _ hne, List.getLast?_eq_some_getLast hne,
      List.getLast?_concat] at hlast
    rw [Option.some.inj hlast] at hdigit
    exact absurd hdigit (by decide)
  rw [head, separator, if_pos hnumber, List.append_nil, hlist]

end DiskName

/-! ### The answers of the two tests -/

section Answers

variable (d e : DiskName) (n : ℕ) (dir : String)

/-- The rule of the journal's target gives each partition to its disk. -/
theorem partitionNameMatches_partition :
    partitionNameMatches (dir ++ d.name) (dir ++ e.partition n) = true ↔ d = e := by
  rw [partitionNameMatches_iff, DiskName.requiredSeparator_name, DiskName.partition_toList,
    DiskName.name_toList]
  constructor
  · rintro ⟨digits, -, hlist, hdigits⟩
    rw [List.append_assoc, List.append_cancel_left_eq] at hlist
    obtain ⟨heq, -⟩ | ⟨hp, hname⟩ := DiskName.head_cases d.separator_cases hdigits hlist
    · exact heq
    · -- a disk with the separator has a number, and the other one would not
      rw [DiskName.head_of_name hname, hp, List.append_assoc, List.append_assoc, List.append_assoc,
        List.append_cancel_left_eq, List.append_cancel_left_eq] at hlist
      have hnumber : d.number ≠ [] := by
        intro hnil
        rw [DiskName.separator, if_pos hnil] at hp
        cases hp
      have hlong : e.stem ++ e.number = d.stem ++ d.number ++ ['p'] := by
        have hchars := congrArg String.toList hname
        rwa [DiskName.name, DiskName.name, String.toList_append, String.toList_ofList,
          String.toList_ofList] at hchars
      have hbase := congrArg base hlong
      rw [base_append e.number_digits, DiskName.base_stem, base_concat (by decide)] at hbase
      exact absurd hbase (DiskName.stem_ne_numbered hnumber)
  · rintro rfl
    exact ⟨DiskName.decimal n, decimal_ne_nil n, by simp [DiskName.head], decimal_digits n⟩

/-- `on_selected_disk` gives each partition to its disk, and those of a disk `dp` to the disk `d` also. -/
theorem onSelectedDisk_partition :
    onSelectedDisk (dir ++ e.partition n) (dir ++ d.name) = true ↔ d = e ∨ e.name = d.name ++ "p" := by
  rw [onSelectedDisk_iff, DiskName.partition_toList, DiskName.name_toList]
  constructor
  · rintro ⟨sep, digits, hsep, -, hlist, hdigits⟩
    rw [List.append_assoc, List.append_cancel_left_eq] at hlist
    exact (DiskName.head_cases hsep hdigits hlist).imp And.left And.right
  · rintro (rfl | hname)
    · refine ⟨d.separator, DiskName.decimal n, d.separator_cases, fun h => ?_, by simp [DiskName.head],
        decimal_digits n⟩
      exact decimal_ne_nil n (List.append_eq_nil_iff.1 h).2
    · refine ⟨['p'], DiskName.decimal n, .inr rfl, by simp, ?_, decimal_digits n⟩
      rw [DiskName.head_of_name hname]
      simp

/-- Of two disks, `on_selected_disk` takes the partitions of the first one for its own and those of the
second one not, and agrees with the naming rule on both, exactly when the second name is not the first one
with the separator behind it. -/
theorem onSelectedDisk_partition_iff {d e : DiskName} (hne : d ≠ e) (n : ℕ) (dir : String) :
    (onSelectedDisk (dir ++ d.partition n) (dir ++ d.name) = true ∧
      onSelectedDisk (dir ++ e.partition n) (dir ++ d.name) = false ∧
      ∀ f ∈ [d, e], onSelectedDisk (dir ++ f.partition n) (dir ++ d.name) =
        partitionNameMatches (dir ++ d.name) (dir ++ f.partition n)) ↔ e.name ≠ d.name ++ "p" := by
  have hown : onSelectedDisk (dir ++ d.partition n) (dir ++ d.name) = true :=
    (onSelectedDisk_partition d d n dir).2 (.inl rfl)
  have hrule : partitionNameMatches (dir ++ d.name) (dir ++ d.partition n) = true :=
    (partitionNameMatches_partition d d n dir).2 rfl
  have hother : partitionNameMatches (dir ++ d.name) (dir ++ e.partition n) = false :=
    Bool.eq_false_iff.2 fun h => hne ((partitionNameMatches_partition d e n dir).1 h)
  constructor
  · rintro ⟨-, hreject, -⟩ hname
    rw [(onSelectedDisk_partition d e n dir).2 (.inr hname)] at hreject
    cases hreject
  · intro hname
    have hreject : onSelectedDisk (dir ++ e.partition n) (dir ++ d.name) = false :=
      Bool.eq_false_iff.2 fun h => ((onSelectedDisk_partition d e n dir).1 h).elim hne hname
    refine ⟨hown, hreject, fun f hf => ?_⟩
    obtain rfl | rfl : f = d ∨ f = e := by simpa using hf
    · rw [hown, hrule]
    · rw [hreject, hother]

end Answers

/-- The disks `sda`, `sdap` and `sdb`. -/
def sda : DiskName := .sd ⟨['a'], by decide, List.forall_mem_singleton.2 (by decide)⟩

def sdap : DiskName := .sd ⟨['a', 'p'], by decide,
  List.forall_mem_cons.2 ⟨by decide, List.forall_mem_singleton.2 (by decide)⟩⟩

def sdb : DiskName := .sd ⟨['b'], by decide, List.forall_mem_singleton.2 (by decide)⟩

/-- The first partition of `sdap` passes for one of `sda`, and the naming rule refuses it. -/
theorem sdap_passes_for_sda :
    sda ≠ sdap ∧ onSelectedDisk (sdap.partition 1) sda.name = true ∧
      partitionNameMatches sda.name (sdap.partition 1) = false := by decide

theorem sdb_refused_for_sda :
    onSelectedDisk ("/dev/" ++ sda.partition 1) ("/dev/" ++ sda.name) = true ∧
      onSelectedDisk ("/dev/" ++ sdb.partition 1) ("/dev/" ++ sda.name) = false := by
  have h := (onSelectedDisk_partition_iff (by decide : sda ≠ sdb) 1 "/dev/").2 (by decide)
  exact ⟨h.1, h.2.1⟩

end Kyth.Storage
