import Kyth.Hardware.Policy
import Kyth.Lib.Glob
import Kyth.Lib.SplitOnce

/-!
# What a policy selects (`system/hardware_policy.rs`)

`globMatch` computes whether a value matches a pattern (`globMatch_iff`). The vendor of the processor
comes from a line of `/proc/cpuinfo`, in which the kernel writes blanks between the key and the colon.
`vendorLine` wants the colon right behind the key, so the line is passed over and the vendor stays
empty: `selects_by_vendor_iff` says when a policy selects by the vendor that the kernel names.
-/

namespace Kyth.Hardware

open Str TextLines Glob

variable {lower : String → String} {value front pattern rest : List Char} {row : List Bool}
  {c d : Char}

/-! ### The table -/

/-- The cells of a row from the pattern `front` on. -/
def IsRow (value : List Char) : List Char → List Char → List Bool → Prop
  | front, [], row => ∃ cell, row = [cell] ∧ (cell = true ↔ Matches value front)
  | front, p :: rest, row =>
      ∃ cell cells, row = cell :: cells ∧ (cell = true ↔ Matches value front) ∧
        IsRow value (front ++ [p]) rest cells

theorem IsRow.getLastD (h : IsRow value front rest row) :
    row.getLastD false = true ↔ Matches value (front ++ rest) := by
  induction rest generalizing front row with
  | nil =>
    obtain ⟨cell, rfl, hcell⟩ := h
    rw [List.append_nil]
    exact hcell
  | cons p rest ih =>
    obtain ⟨cell, cells, rfl, -, hcells⟩ := h
    have hlast := ih hcells
    rw [List.append_assoc] at hlast
    rw [← List.singleton_append (l := rest), ← hlast]
    cases rest with
    | nil =>
      obtain ⟨cell', rfl, -⟩ := hcells
      rfl
    | cons q rest =>
      obtain ⟨cell', cells, rfl, -⟩ := hcells
      rfl

theorem isRow_firstCells {left : Bool} (h : left = true ↔ Matches [] front) (rest : List Char) :
    IsRow [] front rest (left :: firstCells left rest) := by
  induction rest generalizing front left with
  | nil => exact ⟨left, rfl, h⟩
  | cons p rest ih =>
    refine ⟨left, _, rfl, h, ih ?_⟩
    rw [Bool.and_eq_true, beq_iff_eq, h]
    by_cases hstar : p = '*'
    · rw [hstar, matches_nil_concat_star, and_iff_right rfl]
    · exact ⟨fun h => absurd h.1 hstar, fun h => absurd h (not_matches_nil_concat hstar)⟩

theorem isRow_firstRow (pattern : List Char) : IsRow [] [] pattern (firstRow pattern) :=
  isRow_firstCells (by simp) pattern

theorem isRow_rowCells {left : Bool} (h : left = true ↔ Matches (value ++ [c]) front)
    (hrow : IsRow value front rest row) :
    IsRow (value ++ [c]) front rest (left :: rowCells c left rest row) := by
  induction rest generalizing front left row with
  | nil => exact ⟨left, by rw [rowCells]; simp, h⟩
  | cons p rest ih =>
    obtain ⟨diagonal, cells, rfl, hdiagonal, hcells⟩ := hrow
    obtain ⟨above, cells, rfl, habove⟩ : ∃ above cells', cells = above :: cells' ∧
        (above = true ↔ Matches value (front ++ [p])) := by
      cases rest with
      | nil =>
        obtain ⟨above, rfl, habove⟩ := hcells
        exact ⟨above, [], rfl, habove⟩
      | cons q rest =>
        obtain ⟨above, cells, rfl, habove, -⟩ := hcells
        exact ⟨above, cells, rfl, habove⟩
    refine ⟨left, _, rfl, h, ih ?_ hcells⟩
    split_ifs with hstar hquestion
    · rw [Bool.or_eq_true, h, habove, hstar, matches_concat_star]
    · rw [hdiagonal, matches_concat_concat hstar, and_iff_right (.inl hquestion)]
    · rw [Bool.and_eq_true, beq_iff_eq, hdiagonal, matches_concat_concat hstar]
      exact and_congr_left' ⟨.inr, fun h => h.resolve_left hquestion⟩

theorem isRow_nextRow (hrow : IsRow value [] pattern row) :
    IsRow (value ++ [c]) [] pattern (nextRow pattern row c) :=
  isRow_rowCells (by simp) hrow

theorem isRow_foldl (value pattern : List Char) :
    IsRow value [] pattern (value.foldl (nextRow pattern) (firstRow pattern)) := by
  induction value using List.reverseRecOn with
  | nil => exact isRow_firstRow pattern
  | append_singleton value c ih =>
    rw [List.foldl_concat]
    exact isRow_nextRow ih

theorem globMatch_eq (value pattern : String) :
    globMatch lower value pattern = true ↔ Matches (lower value).toList (lower pattern).toList :=
  (isRow_foldl _ _).getLastD

/-- `glob_match` compares the lower case of the value with the lower case of the pattern. -/
theorem globMatch_iff (lower : String → String) (value pattern : String) :
    globMatch lower value pattern = true ↔
      ∃ pieces : List (List Char), pieces.flatten = (lower value).toList ∧
        List.Forall₂ (fun piece c => if c = '*' then True else if c = '?' then piece.length = 1
          else piece = [c]) pieces (lower pattern).toList :=
  globMatch_eq value pattern

/-! ### The vendor -/

def vendorKey : List Char := "vendor_id".toList

def IsBlank (c : Char) : Prop := c = ' ' ∨ c = '\t'

/-- A line of the kernel: a key, blanks, a colon, a blank and a value. -/
def entryLine (key blanks value : List Char) : List Char := key ++ (blanks ++ ':' :: ' ' :: value)

/-- A line of the kernel, or an empty one between two processors. -/
def IsKernelLine (line : List Char) : Prop :=
  line = [] ∨ ∃ key blanks value, line = entryLine key blanks value ∧ ':' ∉ key ∧
    (∀ c ∈ key.getLast?, ¬ IsBlank c) ∧ ∀ c ∈ blanks, IsBlank c

/-- The first line with a vendor. -/
structure FirstVendor (text : String) (before : List (List Char)) (blanks : List Char) (v : String)
    (after : List (List Char)) : Prop where
  lines_eq : lines text.toList = before ++ entryLine vendorKey blanks v.toList :: after
  isBlank : ∀ c ∈ blanks, IsBlank c
  isKernelLine : ∀ line ∈ before ++ after, IsKernelLine line
  first : ∀ line ∈ before, ∀ blanks' value, (∀ c ∈ blanks', IsBlank c) →
    line ≠ entryLine vendorKey blanks' value

theorem vendorLine_eq_some {line w : List Char} :
    vendorLine line = some w ↔ line = vendorKey ++ ':' :: w := by
  simp only [vendorLine, Option.bind_eq_some_iff, SplitOnce.dropPrefix?_eq_some]
  constructor
  · rintro ⟨rest, rfl, rfl⟩
    rfl
  · rintro rfl
    exact ⟨':' :: w, rfl, rfl⟩

theorem colon_not_mem {blanks : List Char} (h : ∀ c ∈ blanks, IsBlank c) : ':' ∉ blanks := by
  intro hmem
  rcases h _ hmem with h | h <;> exact absurd h (by decide)

theorem blanks_eq_nil {blanks : List Char} (hblanks : ∀ c ∈ blanks, IsBlank c)
    (hlast : ∀ c ∈ (front ++ blanks).getLast?, ¬ IsBlank c) : blanks = [] := by
  rcases List.eq_nil_or_concat blanks with rfl | ⟨init, b, rfl⟩
  · rfl
  · refine absurd (hblanks b ?_) (hlast b ?_)
    · simp
    · simp

/-- An entry whose text in front of the colon ends in no blank. -/
theorem entryLine_eq_iff {key blanks value w : List Char} (hkey : ':' ∉ key)
    (hblanks : ∀ c ∈ blanks, IsBlank c) (hfront : ':' ∉ front)
    (hlast : ∀ c ∈ front.getLast?, ¬ IsBlank c) :
    entryLine key blanks value = front ++ ':' :: w ↔ key = front ∧ blanks = [] ∧ w = ' ' :: value := by
  have hcolon : ':' ∉ key ++ blanks := by
    rw [List.mem_append, not_or]
    exact ⟨hkey, colon_not_mem hblanks⟩
  rw [entryLine, ← List.append_assoc, SplitOnce.append_cons_inj hcolon hfront]
  constructor
  · rintro ⟨rfl, rfl⟩
    have hnil := blanks_eq_nil hblanks hlast
    exact ⟨by rw [hnil, List.append_nil], hnil, rfl⟩
  · rintro ⟨rfl, rfl, rfl⟩
    exact ⟨List.append_nil _, rfl⟩

theorem colon_not_mem_vendorKey : ':' ∉ vendorKey := by decide

theorem vendorKey_last : ∀ c ∈ vendorKey.getLast?, ¬ IsBlank c := by
  have hd : vendorKey.getLast? = some 'd' := by decide
  rw [hd]
  rintro c ⟨⟩
  unfold IsBlank
  decide

/-- A line of the kernel with the colon right behind the key. -/
theorem IsKernelLine.vendorLine_eq_some {line w : List Char} (h : IsKernelLine line) :
    vendorLine line = some w ↔ ∃ value, w = ' ' :: value ∧ line = entryLine vendorKey [] value := by
  rw [Hardware.vendorLine_eq_some]
  rcases h with rfl | ⟨key, blanks, value, rfl, hkey, -, hblanks⟩
  · constructor
    · intro h
      simp at h
    · rintro ⟨value, -, h⟩
      simp [entryLine] at h
  · rw [entryLine_eq_iff hkey hblanks colon_not_mem_vendorKey vendorKey_last]
    constructor
    · rintro ⟨rfl, rfl, rfl⟩
      exact ⟨value, rfl, rfl⟩
    · rintro ⟨value', rfl, h⟩
      rw [entryLine, entryLine, List.nil_append] at h
      exact (entryLine_eq_iff hkey hblanks colon_not_mem_vendorKey vendorKey_last).1 h

/-- Blanks in front of the colon hide the vendor. -/
theorem vendorLine_of_blanks {blanks value : List Char} (hne : blanks ≠ []) (h : ∀ c ∈ blanks, IsBlank c) :
    vendorLine (entryLine vendorKey blanks value) = none := by
  rw [← Option.not_isSome_iff_eq_none, Option.isSome_iff_exists]
  rintro ⟨w, hw⟩
  rw [vendorLine_eq_some,
    entryLine_eq_iff colon_not_mem_vendorKey h colon_not_mem_vendorKey vendorKey_last] at hw
  exact hne hw.2.1

/-- The vendor that the kernel names is read: the colon stands right behind the key and the value has
no blanks around it that matter, or a later line of the other form has the same one. An empty value
stands for no such line. -/
def VendorRead (lower : String → String) (blanks : List Char) (v : String) (after : List (List Char)) :
    Prop :=
  blanks = [] ∧ Alike (lower (trim v)).toList (lower v).toList ∨
  blanks ≠ [] ∧
    ((∃ skipped value rest, after = skipped ++ entryLine vendorKey [] value :: rest ∧
        (∀ line ∈ skipped, ∀ value', line ≠ entryLine vendorKey [] value') ∧
        Alike (lower (trim (String.ofList value))).toList (lower v).toList) ∨
      (∀ line ∈ after, ∀ value, line ≠ entryLine vendorKey [] value) ∧
        Alike (lower "").toList (lower v).toList)

/-- The vendor of a line, as `cpuVendor` takes it. -/
def lineVendor (line : List Char) : Option String :=
  (vendorLine line).map fun value => trim (String.ofList value)

theorem trim_blank (value : List Char) :
    trim (String.ofList (' ' :: value)) = trim (String.ofList value) := by
  simp [trim, isWhitespace]

theorem IsKernelLine.lineVendor_eq_none {line : List Char} (h : IsKernelLine line) :
    lineVendor line = none ↔ ∀ value, line ≠ entryLine vendorKey [] value := by
  rw [lineVendor, Option.map_eq_none_iff]
  constructor
  · rintro hnone value rfl
    rw [h.vendorLine_eq_some.2 ⟨value, rfl, rfl⟩] at hnone
    cases hnone
  · intro hne
    by_contra hsome
    obtain ⟨w, hw⟩ := Option.isSome_iff_exists.1 (Option.isSome_iff_ne_none.2 hsome)
    obtain ⟨value, -, hline⟩ := h.vendorLine_eq_some.1 hw
    exact hne value hline

theorem lineVendor_entry (value : List Char) :
    lineVendor (entryLine vendorKey [] value) = some (trim (String.ofList value)) := by
  have hline : vendorLine (entryLine vendorKey [] value) = some (' ' :: value) :=
    vendorLine_eq_some.2 rfl
  rw [lineVendor, hline, Option.map_some, trim_blank]

theorem findSome?_lineVendor {skipped rest : List (List Char)}
    (h : ∀ line ∈ skipped, lineVendor line = none) (value : List Char) :
    (skipped ++ entryLine vendorKey [] value :: rest).findSome? lineVendor =
      some (trim (String.ofList value)) := by
  rw [List.findSome?_append, List.findSome?_eq_none_iff.2 h, List.findSome?_cons, lineVendor_entry]
  rfl

variable {text v : String} {before after : List (List Char)} {blanks : List Char}

theorem FirstVendor.vendorRead_iff (h : FirstVendor text before blanks v after) :
    VendorRead lower blanks v after ↔ Alike (lower (cpuVendor text)).toList (lower v).toList := by
  obtain ⟨hlines, hblanks, hkernel, hfirst⟩ := h
  rw [List.forall_mem_append] at hkernel
  have hbefore : ∀ line ∈ before, lineVendor line = none := fun line hline =>
    (hkernel.1 line hline).lineVendor_eq_none.2 fun value => hfirst line hline [] value (by simp)
  have hvendor : cpuVendor text =
      ((before ++ entryLine vendorKey blanks v.toList :: after).findSome? lineVendor).getD "" := by
    rw [cpuVendor, hlines]
    rfl
  rcases eq_or_ne blanks [] with rfl | hne
  · rw [findSome?_lineVendor hbefore, String.ofList_toList, Option.getD_some] at hvendor
    rw [hvendor]
    exact ⟨fun h => h.elim And.right fun h => absurd rfl h.1, fun h => .inl ⟨rfl, h⟩⟩
  · have hline : lineVendor (entryLine vendorKey blanks v.toList) = none := by
      rw [lineVendor, vendorLine_of_blanks hne hblanks]
      rfl
    rw [List.findSome?_append, List.findSome?_eq_none_iff.2 hbefore, Option.none_or,
      List.findSome?_cons, hline] at hvendor
    have hnone : ∀ {skipped : List (List Char)}, (∀ line ∈ skipped, line ∈ after) →
        ((∀ line ∈ skipped, lineVendor line = none) ↔
          ∀ line ∈ skipped, ∀ value, line ≠ entryLine vendorKey [] value) := fun hsub =>
      forall₂_congr fun line hline => (hkernel.2 line (hsub line hline)).lineVendor_eq_none
    rw [VendorRead, or_iff_right (fun h => hne h.1), and_iff_right hne]
    cases hafter : after.findSome? lineVendor with
    | none =>
      have hall := (hnone fun _ => id).1 (List.findSome?_eq_none_iff.1 hafter)
      rw [hafter, Option.getD_none] at hvendor
      rw [hvendor]
      constructor
      · rintro (⟨skipped, value, rest, rfl, -, -⟩ | ⟨-, h⟩)
        · exact absurd rfl (hall _ (by simp) value)
        · exact h
      · exact fun h => .inr ⟨hall, h⟩
    | some found =>
      rw [hafter, Option.getD_some] at hvendor
      rw [hvendor]
      constructor
      · rintro (⟨skipped, value, rest, rfl, hskipped, h⟩ | ⟨hall, -⟩)
        · rw [findSome?_lineVendor ((hnone fun line hline => by simp [hline]).2 hskipped)] at hafter
          cases hafter
          exact h
        · rw [List.findSome?_eq_none_iff.2 ((hnone fun _ => id).2 hall)] at hafter
          cases hafter
      · intro h
        obtain ⟨skipped, line, rest, rfl, hfound, hskipped⟩ := List.findSome?_eq_some_iff.1 hafter
        obtain ⟨w, hw, rfl⟩ := Option.map_eq_some_iff.1 hfound
        obtain ⟨value, rfl, rfl⟩ := (hkernel.2 line (by simp)).vendorLine_eq_some.1 hw
        rw [trim_blank] at h
        exact .inl ⟨skipped, value, rest, rfl, (hnone fun line hline => by simp [hline]).1 hskipped, h⟩

/-! ### The selection -/

/-- A selector that lists vendors of processors only. -/
structure Match.IsByVendor (selector : Match) : Prop where
  always : selector.always = false
  pci : selector.pci = []
  usb : selector.usb = []
  dmiVendors : selector.dmiVendors = []
  dmiProducts : selector.dmiProducts = []
  dmiBoards : selector.dmiBoards = []

theorem selects_iff {inventory : Inventory} {selector : Match} (h : selector.IsByVendor) :
    selects lower inventory selector = true ↔
      ∃ pattern ∈ selector.cpuVendors, globMatch lower inventory.cpuVendor pattern = true := by
  obtain ⟨halways, hpci, husb, hvendors, hproducts, hboards⟩ := h
  have hnil : ∀ value, patternsMatch lower value [] = true := fun _ => rfl
  rw [selects, halways, hpci, husb, hvendors, hproducts, hboards]
  simp only [hnil]
  cases hpatterns : selector.cpuVendors with
  | nil => simp [patternsMatch]
  | cons p patterns =>
    cases hmatch : patternsMatch lower inventory.cpuVendor (p :: patterns) with
    | false =>
      simp only [patternsMatch, List.isEmpty_cons, Bool.false_or, List.any_eq_false] at hmatch
      simp only [Bool.not_false, Bool.true_or, if_true]
      refine ⟨fun h => by simp at h, ?_⟩
      rintro ⟨pattern, hpattern, h⟩
      exact absurd h (hmatch pattern hpattern)
    | true =>
      simp only [patternsMatch, List.isEmpty_cons, Bool.false_or, List.any_eq_true] at hmatch
      simpa using hmatch

/-- A policy selects its entries by vendor exactly for the patterns that match `v`, in any case. -/
def SelectsByVendor (lower : String → String) (v : String) (policy : Policy) (evaluation : Evaluation) :
    Prop :=
  (∀ profile ∈ policy.profiles, profile.selector.IsByVendor →
    (profile ∈ evaluation.profiles ↔ ∃ pattern ∈ profile.selector.cpuVendors,
      Matches (lower v).toList (lower pattern).toList)) ∧
  ∀ quirk ∈ policy.quirks, quirk.selector.IsByVendor →
    ((∃ expired, (quirk, expired) ∈ evaluation.quirks) ↔ ∃ pattern ∈ quirk.selector.cpuVendors,
      Matches (lower v).toList (lower pattern).toList)

theorem mem_profiles_iff {policy : Policy} {digest : String} {seconds : ℕ} {inventory : Inventory}
    {profile : Profile} : profile ∈ (evaluate lower policy digest seconds inventory).profiles ↔
      profile ∈ policy.profiles ∧ selects lower inventory profile.selector = true := by
  rw [evaluate, List.mem_mergeSort, List.mem_filter]

theorem exists_mem_quirks_iff {policy : Policy} {digest : String} {seconds : ℕ} {inventory : Inventory}
    {quirk : Quirk} :
    (∃ expired, (quirk, expired) ∈ (evaluate lower policy digest seconds inventory).quirks) ↔
      quirk ∈ policy.quirks ∧ selects lower inventory quirk.selector = true := by
  simp only [evaluate, List.mem_map, List.mem_filter, Prod.mk.injEq]
  constructor
  · rintro ⟨expired, q, hq, rfl, -⟩
    exact hq
  · exact fun h => ⟨_, quirk, h, rfl, rfl⟩

/-- A policy with one profile for one vendor pattern. -/
def policyFor (pattern : String) : Policy where
  policyRevision := ""
  profiles := [⟨"", 0, "", [], ⟨false, [], [], [pattern], [], [], []⟩⟩]
  quirks := []

/-- A machine of which only the processor is known. -/
def machineWith (cpuinfo : String) : Machine := ⟨[], [], none, none, none, some cpuinfo⟩

/-- Every policy selects by the vendor that the kernel names exactly when that vendor is read. -/
theorem selects_by_vendor_iff (lower : String → String)
    (hlower : ∀ s : String, (lower (String.ofList (s.toList.map unstar))).toList =
      (lower s).toList.map unstar)
    (text v : String) (before after : List (List Char)) (blanks : List Char)
    (h : FirstVendor text before blanks v after) :
    (∀ policy digest seconds machine, machine.cpuinfo = some text →
        SelectsByVendor lower v policy
          (evaluate lower policy digest seconds (collectInventoryFrom lower machine))) ↔
      VendorRead lower blanks v after := by
  rw [h.vendorRead_iff]
  constructor
  · intro hall
    have hpattern : ∀ pattern, Matches (lower (cpuVendor text)).toList (lower pattern).toList ↔
        Matches (lower v).toList (lower pattern).toList := by
      intro pattern
      obtain ⟨hprofiles, -⟩ := hall (policyFor pattern) "" 0 (machineWith text) rfl
      have hprofile := hprofiles _ (List.mem_singleton_self _) ⟨rfl, rfl, rfl, rfl, rfl, rfl⟩
      rw [mem_profiles_iff, selects_iff ⟨rfl, rfl, rfl, rfl, rfl, rfl⟩] at hprofile
      simpa [globMatch_eq, collectInventoryFrom, machineWith, policyFor] using hprofile
    refine alike_of_matches ?_ ?_
    · rw [← hlower, hpattern, hlower]
      exact matches_map_unstar_self _
    · rw [← hlower, ← hpattern, hlower]
      exact matches_map_unstar_self _
  · intro halike policy digest seconds machine hmachine
    have hvendor : (collectInventoryFrom lower machine).cpuVendor = cpuVendor text := by
      rw [collectInventoryFrom, hmachine]
      rfl
    have hselects : ∀ selector : Match, selector.IsByVendor →
        (selects lower (collectInventoryFrom lower machine) selector = true ↔
          ∃ pattern ∈ selector.cpuVendors, Matches (lower v).toList (lower pattern).toList) := by
      intro selector hselector
      rw [selects_iff hselector, hvendor]
      simp only [globMatch_eq]
      constructor
      · rintro ⟨pattern, hpattern, h⟩
        exact ⟨pattern, hpattern, halike.matches h⟩
      · rintro ⟨pattern, hpattern, h⟩
        exact ⟨pattern, hpattern, halike.symm.matches h⟩
    constructor
    · intro profile hprofile hselector
      rw [mem_profiles_iff, and_iff_right hprofile, hselects _ hselector]
    · intro quirk hquirk hselector
      rw [exists_mem_quirks_iff, and_iff_right hquirk, hselects _ hselector]

theorem toAsciiLowercase_unstar (s : String) :
    (toAsciiLowercase (String.ofList (s.toList.map unstar))).toList =
      (toAsciiLowercase s).toList.map unstar := by
  have hchar : ∀ c, charLower (unstar c) = unstar (charLower c) := by
    intro c
    by_cases hupper : 65 ≤ c.toNat ∧ c.toNat ≤ 90
    · have hletters : ∀ n < 26, charLower (unstar (Char.ofNat (65 + n))) =
          unstar (charLower (Char.ofNat (65 + n))) := by
        decide
      obtain ⟨n, hn⟩ := Nat.exists_eq_add_of_le hupper.1
      have hletter := hletters n (by omega)
      rwa [← hn, Char.ofNat_toNat] at hletter
    · rw [show charLower c = c by rw [charLower, if_neg hupper]]
      unfold unstar
      split_ifs
      · decide
      · rw [charLower, if_neg hupper]
  simp only [toAsciiLowercase, String.toList_ofList, List.map_map]
  exact List.map_congr_left fun c _ => hchar c

/-- The text of a processor with the colon right behind the key, and with the tab of the kernel. -/
def joinedInfo : String := "processor\t: 0\nvendor_id: GenuineIntel\n"

def tabbedInfo : String := "processor\t: 0\nvendor_id\t: GenuineIntel\n"

theorem isKernelLine_processor :
    ∀ line ∈ [entryLine "processor".toList ['\t'] ['0']] ++ [], IsKernelLine line := by
  intro line hline
  rw [List.append_nil, List.mem_singleton] at hline
  subst hline
  refine .inr ⟨_, _, _, rfl, by decide, ?_, ?_⟩
  · have hr : "processor".toList.getLast? = some 'r' := by decide
    rw [hr]
    rintro c ⟨⟩
    unfold IsBlank
    decide
  · intro c hc
    exact .inr (List.mem_singleton.1 hc)

theorem first_processor {blanks' value : List Char} :
    entryLine "processor".toList ['\t'] ['0'] ≠ entryLine vendorKey blanks' value := by
  have hp : "processor".toList = 'p' :: "rocessor".toList := by decide
  have hv : vendorKey = 'v' :: "endor_id".toList := by decide
  rw [hp, hv, entryLine, entryLine, List.cons_append, List.cons_append]
  intro h
  exact absurd (List.cons.inj h).1 (by decide)

theorem firstVendor_joined :
    FirstVendor joinedInfo [entryLine "processor".toList ['\t'] ['0']] [] "GenuineIntel" [] where
  lines_eq := by decide
  isBlank := by simp
  isKernelLine := isKernelLine_processor
  first := by
    intro line hline blanks' value _
    rw [List.mem_singleton.1 hline]
    exact first_processor

theorem firstVendor_tabbed :
    FirstVendor tabbedInfo [entryLine "processor".toList ['\t'] ['0']] ['\t'] "GenuineIntel" [] where
  lines_eq := by decide
  isBlank := fun c hc => .inr (List.mem_singleton.1 hc)
  isKernelLine := isKernelLine_processor
  first := by
    intro line hline blanks' value _
    rw [List.mem_singleton.1 hline]
    exact first_processor

/-- The vendor of a line without a tab is read. -/
theorem selects_joined_vendor :
    (∀ policy digest seconds machine, machine.cpuinfo = some joinedInfo →
        SelectsByVendor toAsciiLowercase "GenuineIntel" policy
          (evaluate toAsciiLowercase policy digest seconds
            (collectInventoryFrom toAsciiLowercase machine))) ∧
      VendorRead toAsciiLowercase [] "GenuineIntel" [] := by
  have hread : VendorRead toAsciiLowercase [] "GenuineIntel" [] := by
    refine .inl ⟨rfl, ?_⟩
    rw [show trim "GenuineIntel" = "GenuineIntel" by decide]
    exact Alike.refl _
  exact ⟨(selects_by_vendor_iff toAsciiLowercase toAsciiLowercase_unstar _ _ _ _ _
    firstVendor_joined).2 hread, hread⟩

/-- Behind the tab of the kernel the vendor is not found, and the profile for it is not selected. -/
theorem tab_hides_vendor :
    FirstVendor tabbedInfo [entryLine "processor".toList ['\t'] ['0']] ['\t'] "GenuineIntel" [] ∧
      ¬ SelectsByVendor toAsciiLowercase "GenuineIntel" (policyFor "GenuineIntel")
        (evaluate toAsciiLowercase (policyFor "GenuineIntel") "" 0
          (collectInventoryFrom toAsciiLowercase (machineWith tabbedInfo))) := by
  refine ⟨firstVendor_tabbed, ?_⟩
  rintro ⟨hprofiles, -⟩
  have hprofile := hprofiles _ (List.mem_singleton_self _) ⟨rfl, rfl, rfl, rfl, rfl, rfl⟩
  have hmissing : (evaluate toAsciiLowercase (policyFor "GenuineIntel") "" 0
      (collectInventoryFrom toAsciiLowercase (machineWith tabbedInfo))).profiles = [] := by
    decide +kernel
  rw [hmissing] at hprofile
  refine List.not_mem_nil (hprofile.2 ⟨_, List.mem_singleton_self _, ?_⟩)
  have hself : (toAsciiLowercase "GenuineIntel").toList.map unstar =
      (toAsciiLowercase "GenuineIntel").toList := by
    decide
  have h := matches_map_unstar_self (toAsciiLowercase "GenuineIntel").toList
  rwa [hself] at h

end Kyth.Hardware
