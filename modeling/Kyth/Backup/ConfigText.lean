import Kyth.Backup.Config

/-!
# Configurations that are read back (`system/backup_config.rs`, `system/save_cloud.rs`)

The escapes of `{:?}` are those of TOML but for two: `\0` and `\u{…}` are none in TOML, and a document
with one of them is no TOML at all. So a configuration comes back exactly if its texts need neither
(`load_save_iff`), and otherwise all of it is lost.
-/

namespace Kyth.Backup

open Str Toml Utf8Text

variable {unicode : Unicode} {parse : List Char → Option Table} {text rest key value : List Char} {c : Char}
  {items : List Item} {fuel : ℕ}

/-- The character is written with an escape that TOML does not have. -/
def NeedsEscape (unicode : Unicode) (c : Char) : Prop :=
  isPlain unicode c = false ∧ c ≠ '\t' ∧ c ≠ '\r' ∧ c ≠ '\n'

/-- The characters of a text come back. -/
def Writable (unicode : Unicode) (text : List Char) : Prop := ∀ c ∈ text, ¬ NeedsEscape unicode c

/-! ### Strings -/

theorem readScalar_brace (count : ℕ) (rest : List Char) : readScalar (count + 1) ('\x7b' :: rest) = none := by
  rw [readScalar, if_neg]
  rintro ⟨-, hdigits, -⟩
  rw [List.take_succ_cons, List.all_cons, Bool.and_eq_true] at hdigits
  exact absurd hdigits.1 (by decide)

theorem isPlain_unescaped (h : isPlain unicode c = true) (hquote : c ≠ '"') (hslash : c ≠ '\\') :
    isBasicUnescaped c = true := by
  have hrange : 0x20 ≤ c.toNat ∧ c.toNat ≠ 0x7F := by
    unfold isPlain at h
    split_ifs at h with hascii
    · simp only [Bool.and_eq_true, decide_eq_true_eq] at h
      omega
    · omega
  simp [isBasicUnescaped, isNonEol, hrange, hquote, hslash]

theorem isPlain_ascii (h : c.toNat < 128) : isPlain unicode c = (0x20 ≤ c.toNat && c.toNat < 0x7F) :=
  if_pos h

/-- What is written for a character is read as that character, or not at all. -/
theorem readChar_debugChar (unicode : Unicode) (c : Char) (rest : List Char) :
    ¬ NeedsEscape unicode c ∧ readChar (debugChar unicode c ++ rest) = some (c, rest) ∨
      NeedsEscape unicode c ∧ readChar (debugChar unicode c ++ rest) = none := by
  unfold debugChar
  split_ifs with hnul htab hreturn hnewline hslash hquote hplain
  · subst hnul
    exact .inr ⟨⟨isPlain_ascii (by decide), by decide, by decide, by decide⟩, rfl⟩
  · exact .inl ⟨fun h => h.2.1 htab, by rw [htab]; rfl⟩
  · exact .inl ⟨fun h => h.2.2.1 hreturn, by rw [hreturn]; rfl⟩
  · exact .inl ⟨fun h => h.2.2.2 hnewline, by rw [hnewline]; rfl⟩
  · subst hslash
    refine .inl ⟨fun h => ?_, rfl⟩
    rw [NeedsEscape, isPlain_ascii (by decide)] at h
    exact absurd h.1 (by decide)
  · subst hquote
    refine .inl ⟨fun h => ?_, rfl⟩
    rw [NeedsEscape, isPlain_ascii (by decide)] at h
    exact absurd h.1 (by decide)
  · refine .inl ⟨fun h => ?_, ?_⟩
    · rw [NeedsEscape, hplain] at h
      exact absurd h.1 (by decide)
    · rw [List.singleton_append, readChar, if_pos (isPlain_unescaped hplain hquote hslash)]
      exact fun h => hslash h
  · rw [Bool.not_eq_true] at hplain
    refine .inr ⟨⟨hplain, htab, hreturn, hnewline⟩, ?_⟩
    rw [unicodeEscape, List.append_assoc, List.append_assoc, List.cons_append, readChar, List.cons_append,
      readEscape, List.singleton_append]
    exact readScalar_brace 3 _

theorem debugChar_head (unicode : Unicode) (c : Char) :
    ∃ d rest, debugChar unicode c = d :: rest ∧ d ≠ '"' := by
  unfold debugChar
  split_ifs with hnul htab hreturn hnewline hslash hquote hplain
  · exact ⟨_, _, rfl, by decide⟩
  · exact ⟨_, _, rfl, by decide⟩
  · exact ⟨_, _, rfl, by decide⟩
  · exact ⟨_, _, rfl, by decide⟩
  · exact ⟨_, _, rfl, by decide⟩
  · exact ⟨_, _, rfl, by decide⟩
  · exact ⟨_, _, rfl, hquote⟩
  · exact ⟨_, _, rfl, by decide⟩

/-- A text is read back up to its closing quote, or not at all. -/
theorem readBasic_debug (hfuel : (text.flatMap (debugChar unicode)).length < fuel) (rest : List Char) :
    Writable unicode text ∧
        readBasic fuel (text.flatMap (debugChar unicode) ++ '"' :: rest) = some (text, rest) ∨
      ¬ Writable unicode text ∧
        readBasic fuel (text.flatMap (debugChar unicode) ++ '"' :: rest) = none := by
  induction text generalizing fuel with
  | nil =>
    obtain ⟨fuel, rfl⟩ := Nat.exists_eq_succ_of_ne_zero (Nat.ne_of_gt hfuel)
    exact .inl ⟨List.forall_mem_nil _, rfl⟩
  | cons c text ih =>
    obtain ⟨fuel, rfl⟩ := Nat.exists_eq_succ_of_ne_zero (Nat.ne_of_gt (Nat.zero_lt_of_lt hfuel))
    obtain ⟨d, more, hdebug, hquote⟩ := debugChar_head unicode c
    rw [List.flatMap_cons, List.length_append] at hfuel
    have hlength : 0 < (debugChar unicode c).length := by
      rw [hdebug]
      exact Nat.succ_pos _
    have hhead : (debugChar unicode c ++ (text.flatMap (debugChar unicode) ++ '"' :: rest)).head? ≠ some '"' := by
      rw [hdebug, List.cons_append, List.head?_cons]
      exact fun h => hquote (Option.some.inj h)
    have hcons : Writable unicode (c :: text) ↔ ¬ NeedsEscape unicode c ∧ Writable unicode text :=
      List.forall_mem_cons
    rw [List.flatMap_cons, List.append_assoc, readBasic, if_neg hhead, hcons]
    rcases readChar_debugChar unicode c (text.flatMap (debugChar unicode) ++ '"' :: rest) with
      ⟨hplain, hread⟩ | ⟨hescape, hread⟩
    · have hfuel' : (text.flatMap (debugChar unicode)).length < fuel := by omega
      rcases ih hfuel' with ⟨hwritable, hrest⟩ | ⟨hwritable, hrest⟩
      · left
        rw [hread]
        simp only [Option.bind_eq_bind, Option.bind_some, hrest]
        exact ⟨⟨hplain, hwritable⟩, rfl⟩
      · right
        rw [hread]
        simp only [Option.bind_eq_bind, Option.bind_some, hrest]
        exact ⟨fun h => hwritable h.2, rfl⟩
    · right
      rw [hread]
      exact ⟨fun h => h.1 hescape, rfl⟩

/-! ### Lines -/

/-- The key and the value that a line gives. -/
def Item.entry : Item → Option (List Char × Value)
  | .comment _ => none
  | .text key value => some (key, .string value)
  | .flag key value => some (key, .boolean value)

/-- The item is one that a configuration may have. -/
def Item.IsWellFormed : Item → Prop
  | .comment content => ∀ c ∈ content, isNonEol c = true
  | .text key _ => key ≠ [] ∧ ∀ c ∈ key, isBareKeyChar c = true
  | .flag key _ => key ≠ [] ∧ ∀ c ∈ key, isBareKeyChar c = true

def Item.IsWritable (unicode : Unicode) : Item → Prop
  | .text _ value => Writable unicode value
  | _ => True

theorem digit_of_mem_toDigits {n : ℕ} (h : c ∈ Nat.toDigits 16 n) : ∃ d < 16, c = Nat.digitChar d := by
  induction n using Nat.strong_induction_on with
  | _ n ih =>
    rcases Nat.lt_or_ge n 16 with hlt | hge
    · rw [Nat.toDigits_of_lt_base hlt, List.mem_singleton] at h
      exact ⟨n, hlt, h⟩
    · rw [Nat.toDigits_of_base_le (by decide) hge, List.mem_append, List.mem_singleton] at h
      rcases h with h | h
      · exact ih (n / 16) (by omega) h
      · exact ⟨n % 16, by omega, h⟩

/-- No line ends inside a string. -/
theorem not_newline_of_mem_debug (h : c ∈ debug unicode text) : c ≠ '\n' ∧ c ≠ '\r' := by
  have hpair : ∀ d, d ≠ '\n' ∧ d ≠ '\r' → c ∈ ['\\', d] → c ≠ '\n' ∧ c ≠ '\r' := by
    intro d hd hc
    rcases List.mem_cons.1 hc with rfl | hc
    · decide
    · rwa [List.mem_singleton.1 hc]
  have hchar : ∀ d, c ∈ debugChar unicode d → c ≠ '\n' ∧ c ≠ '\r' := by
    intro d hc
    unfold debugChar at hc
    split_ifs at hc with hnul htab hreturn hnewline hslash hquote hplain
    · exact hpair _ (by decide) hc
    · exact hpair _ (by decide) hc
    · exact hpair _ (by decide) hc
    · exact hpair _ (by decide) hc
    · exact hpair _ (by decide) hc
    · exact hpair _ (by decide) hc
    · rw [List.mem_singleton.1 hc]
      exact ⟨hnewline, hreturn⟩
    · have hdigits : ∀ d < 16, Nat.digitChar d ≠ '\n' ∧ Nat.digitChar d ≠ '\r' := by decide
      have hfront : ∀ d ∈ ['\\', 'u', '\x7b'], d ≠ '\n' ∧ d ≠ '\r' := by
        simp only [List.forall_mem_cons, List.not_mem_nil, false_imp_iff, implies_true, and_true]
        decide
      rw [unicodeEscape, List.mem_append, List.mem_append] at hc
      rcases hc with (hc | hc) | hc
      · exact hfront c hc
      · obtain ⟨d, hd, rfl⟩ := digit_of_mem_toDigits hc
        exact hdigits d hd
      · rw [List.mem_singleton.1 hc]
        decide
  rw [debug, List.mem_cons, List.mem_append, List.mem_singleton] at h
  rcases h with rfl | h | rfl
  · decide
  · obtain ⟨d, -, hd⟩ := List.mem_flatMap.1 h
    exact hchar d hd
  · decide

theorem isSimpleValue_debug (unicode : Unicode) (text : List Char) : IsSimpleValue (debug unicode text) := by
  refine .inr (.inr ⟨rfl, ?_⟩)
  rw [debug, List.cons_prefix_cons]
  rintro ⟨-, hquotes⟩
  cases text with
  | nil => simp at hquotes
  | cons c text =>
    obtain ⟨d, more, hdebug, hquote⟩ := debugChar_head unicode c
    rw [List.flatMap_cons, hdebug, List.cons_append, List.cons_append, List.cons_prefix_cons] at hquotes
    exact hquote hquotes.1.symm

theorem isSimpleLine {item : Item} (h : item.IsWellFormed) : IsSimpleLine (item.line unicode) := by
  cases item with
  | comment content => exact .comment h
  | text key value =>
    exact .assignment h.1 h.2 (isSimpleValue_debug unicode value) fun c hc => not_newline_of_mem_debug hc
  | flag key value =>
    have hfree : (boolText value).all (fun c => c != '\n' && c != '\r') = true := by
      cases value with
      | false => decide
      | true => decide
    have hvalue : IsSimpleValue (boolText value) := by
      cases value with
      | false => exact .inr (.inl rfl)
      | true => exact .inl rfl
    exact .assignment h.1 h.2 hvalue fun c hc => by simpa using List.all_eq_true.1 hfree c hc

/-- A line with a key is read by its value. -/
theorem readAssignment_line (hne : key ≠ []) (hkey : ∀ c ∈ key, isBareKeyChar c = true)
    (hvalue : ∀ c ∈ value.head?, isBlank c = false) :
    isEmptyLine (key ++ (" = ".toList ++ value)) = false ∧
      readAssignment (key ++ (" = ".toList ++ value)) = (readValue value).bind fun read =>
        if isEmptyLine read.2 then some (key, read.1) else none := by
  obtain ⟨c, key, rfl⟩ := List.exists_cons_of_ne_nil hne
  have hc := hkey c List.mem_cons_self
  have hblank : isBlank c = false := by
    cases hblank : isBlank c with
    | false => rfl
    | true =>
      rw [isBlank, Bool.or_eq_true, beq_iff_eq, beq_iff_eq] at hblank
      rcases hblank with rfl | rfl
      · exact absurd hc (by decide)
      · exact absurd hc (by decide)
  have hfront : ((c :: key) ++ (" = ".toList ++ value)).dropWhile isBlank =
      (c :: key) ++ (" = ".toList ++ value) :=
    List.dropWhile_cons_of_neg (by simp [hblank])
  have hequals : " = ".toList ++ value = ' ' :: '=' :: ' ' :: value := rfl
  have hrest : value.dropWhile isBlank = value := by
    cases value with
    | nil => rfl
    | cons d value => exact List.dropWhile_cons_of_neg (by simp [hvalue d rfl])
  have htake : ((c :: key) ++ (" = ".toList ++ value)).takeWhile isBareKeyChar = c :: key := by
    rw [List.takeWhile_append_of_pos hkey, hequals, List.takeWhile_cons_of_neg (by decide), List.append_nil]
  have hdrop : (((c :: key) ++ (" = ".toList ++ value)).dropWhile isBareKeyChar).dropWhile isBlank =
      '=' :: ' ' :: value := by
    rw [List.dropWhile_append_of_pos hkey, hequals, List.dropWhile_cons_of_neg (by decide),
      List.dropWhile_cons_of_pos (by decide), List.dropWhile_cons_of_neg (by decide)]
  constructor
  · rw [isEmptyLine, hfront]
    have hhash : (c == '#') = false := by
      rw [beq_eq_false_iff_ne]
      rintro rfl
      exact absurd hc (by decide)
    simp [hhash]
  · rw [readAssignment]
    simp only [hfront, htake, hdrop]
    rw [if_neg (by simp), List.drop_one, List.tail_cons, List.dropWhile_cons_of_pos (by decide), hrest]
    rfl

theorem readValue_debug (unicode : Unicode) (text : List Char) :
    Writable unicode text ∧ readValue (debug unicode text) = some (.string text, []) ∨
      ¬ Writable unicode text ∧ readValue (debug unicode text) = none := by
  have hfuel : (text.flatMap (debugChar unicode)).length < (debug unicode text).length := by
    rw [debug, List.length_cons, List.length_append]
    omega
  have hquote : (debug unicode text).head? = some '"' := rfl
  rw [readValue, if_pos hquote]
  rcases readBasic_debug hfuel [] with ⟨hwritable, hread⟩ | ⟨hwritable, hread⟩
  · left
    refine ⟨hwritable, ?_⟩
    change (readBasic _ (text.flatMap (debugChar unicode) ++ ['"'])).map _ = _
    rw [hread]
    rfl
  · right
    refine ⟨hwritable, ?_⟩
    change (readBasic _ (text.flatMap (debugChar unicode) ++ ['"'])).map _ = _
    rw [hread]
    rfl

/-- What is read of the line of an item. -/
theorem read_line (unicode : Unicode) {item : Item} (h : item.IsWellFormed) :
    (∃ content, item = .comment content ∧ isEmptyLine (item.line unicode) = true) ∨
      isEmptyLine (item.line unicode) = false ∧
        (item.IsWritable unicode ∧ readAssignment (item.line unicode) = item.entry ∧ item.entry.isSome ∨
          ¬ item.IsWritable unicode ∧ readAssignment (item.line unicode) = none) := by
  cases item with
  | comment content =>
    refine .inl ⟨content, rfl, ?_⟩
    rw [Item.line, isEmptyLine, List.dropWhile_cons_of_neg (by decide)]
    simpa [Item.IsWellFormed] using h
  | text key value =>
    have hquote : ∀ c ∈ (debug unicode value).head?, isBlank c = false := by
      rintro c ⟨⟩
      rfl
    obtain ⟨hempty, hread⟩ := readAssignment_line h.1 h.2 hquote
    refine .inr ⟨hempty, ?_⟩
    rw [Item.line, hread]
    rcases readValue_debug unicode value with ⟨hwritable, hvalue⟩ | ⟨hwritable, hvalue⟩
    · rw [hvalue]
      exact .inl ⟨hwritable, rfl, rfl⟩
    · rw [hvalue]
      exact .inr ⟨hwritable, rfl⟩
  | flag key value =>
    have hletter : ∀ c ∈ (boolText value).head?, isBlank c = false := by
      cases value with
      | false =>
        rintro c ⟨⟩
        rfl
      | true =>
        rintro c ⟨⟩
        rfl
    obtain ⟨hempty, hread⟩ := readAssignment_line h.1 h.2 hletter
    refine .inr ⟨hempty, .inl ⟨trivial, ?_, rfl⟩⟩
    have hvalue : readValue (boolText value) = some (.boolean value, []) := by
      cases value with
      | false => decide
      | true => decide
    rw [Item.line, hread, hvalue]
    rfl

/-- The items of a configuration: no key is written twice. -/
structure AreWritten (items : List Item) : Prop where
  wellFormed : ∀ item ∈ items, item.IsWellFormed
  nodup : ((items.filterMap Item.entry).map Prod.fst).Nodup

theorem readLines_items (h : AreWritten items) :
    (∀ item ∈ items, item.IsWritable unicode) ∧
        readLines (items.map (Item.line unicode)) = some (items.filterMap Item.entry) ∨
      ¬ (∀ item ∈ items, item.IsWritable unicode) ∧
        readLines (items.map (Item.line unicode)) = none := by
  induction items with
  | nil => exact .inl ⟨List.forall_mem_nil _, rfl⟩
  | cons item items ih =>
    obtain ⟨hwellFormed, hnodup⟩ := h
    rw [List.forall_mem_cons] at hwellFormed
    rw [List.forall_mem_cons, List.map_cons, readLines, List.filterMap_cons]
    rw [List.filterMap_cons] at hnodup
    rcases read_line unicode hwellFormed.1 with ⟨content, rfl, hempty⟩ | ⟨hempty, hread⟩
    · rw [if_pos hempty, and_iff_right (show Item.IsWritable unicode (.comment content) from trivial)]
      exact ih ⟨hwellFormed.2, hnodup⟩
    · rw [if_neg (by simp [hempty])]
      rcases hread with ⟨hwritable, hread, hsome⟩ | ⟨hwritable, hread⟩
      · obtain ⟨⟨key, value⟩, hentry⟩ := Option.isSome_iff_exists.1 hsome
        rw [hentry] at hread hnodup
        rw [hread, hentry, and_iff_right hwritable]
        rw [List.map_cons, List.nodup_cons] at hnodup
        rcases ih ⟨hwellFormed.2, hnodup.2⟩ with ⟨hall, hrest⟩ | ⟨hall, hrest⟩
        · left
          rw [hrest]
          exact ⟨hall, if_neg fun h => hnodup.1 (List.contains_iff_mem.1 h)⟩
        · right
          rw [hrest]
          exact ⟨hall, rfl⟩
      · right
        rw [hread]
        exact ⟨fun hall => hwritable hall.1, rfl⟩

/-! ### Configurations -/

/-- What a parser makes of the file that is written. -/
theorem readTable_document (unicode : Unicode) (hparse : ReadsSimple parse) (h : AreWritten items) :
    (∀ item ∈ items, item.IsWritable unicode) ∧
        readTable parse (some (encode (document (items.map (Item.line unicode))))) =
          some (items.filterMap Item.entry) ∨
      ¬ (∀ item ∈ items, item.IsWritable unicode) ∧
        readTable parse (some (encode (document (items.map (Item.line unicode))))) = none := by
  have hsimple : ∀ line ∈ items.map (Item.line unicode), IsSimpleLine line := by
    intro line hline
    obtain ⟨item, hitem, rfl⟩ := List.mem_map.1 hline
    exact isSimpleLine (h.wellFormed item hitem)
  rw [readTable, Option.bind_some, decode_encode, Option.bind_some, hparse _ hsimple]
  exact readLines_items h

theorem BackupConfig.areWritten (config : BackupConfig) : AreWritten config.items where
  wellFormed := by
    simp only [BackupConfig.items, List.forall_mem_cons, Item.IsWellFormed, List.not_mem_nil,
      false_imp_iff, implies_true, and_true, ← List.all_eq_true]
    decide
  nodup := by
    simp only [BackupConfig.items, List.filterMap_cons, Item.entry, List.filterMap_nil, List.map_cons,
      List.map_nil]
    decide

theorem BackupConfig.load_table (config : BackupConfig) {file : Option (List UInt8)}
    (h : readTable parse file = some (config.items.filterMap Item.entry)) : BackupConfig.load parse file = config := by
  rw [BackupConfig.load, h]
  rfl

theorem SaveCloudConfig.areWritten (config : SaveCloudConfig) : AreWritten config.items where
  wellFormed := by
    simp only [SaveCloudConfig.items, List.forall_mem_cons, Item.IsWellFormed, List.not_mem_nil,
      false_imp_iff, implies_true, and_true, ← List.all_eq_true]
    decide
  nodup := by
    simp only [SaveCloudConfig.items, List.filterMap_cons, Item.entry, List.filterMap_nil, List.map_cons,
      List.map_nil]
    decide

theorem SaveCloudConfig.load_table (config : SaveCloudConfig) {file : Option (List UInt8)}
    (h : readTable parse file = some (config.items.filterMap Item.entry)) :
    SaveCloudConfig.load parse file = config := by
  rw [SaveCloudConfig.load, h]
  rfl

/-- The texts of a configuration come back. -/
structure BackupConfig.IsWritable (unicode : Unicode) (config : BackupConfig) : Prop where
  repo : Writable unicode config.repo
  remote : Writable unicode config.remote
  passwordFile : Writable unicode config.passwordFile
  forgetPolicy : Writable unicode config.forgetPolicy

structure SaveCloudConfig.IsWritable (unicode : Unicode) (config : SaveCloudConfig) : Prop where
  repo : Writable unicode config.repo
  remote : Writable unicode config.remote
  passwordFile : Writable unicode config.passwordFile

theorem BackupConfig.isWritable_iff (config : BackupConfig) :
    (∀ item ∈ config.items, item.IsWritable unicode) ↔ config.IsWritable unicode := by
  simp only [BackupConfig.items, List.forall_mem_cons, Item.IsWritable, List.not_mem_nil,
    false_imp_iff, implies_true, and_true, true_and]
  exact ⟨fun h => ⟨h.1, h.2.1, h.2.2.1, h.2.2.2⟩, fun h => ⟨h.repo, h.remote, h.passwordFile, h.forgetPolicy⟩⟩

theorem SaveCloudConfig.isWritable_iff (config : SaveCloudConfig) :
    (∀ item ∈ config.items, item.IsWritable unicode) ↔ config.IsWritable unicode := by
  simp only [SaveCloudConfig.items, List.forall_mem_cons, Item.IsWritable, List.not_mem_nil,
    false_imp_iff, implies_true, and_true, true_and]
  exact ⟨fun h => ⟨h.1, h.2.1, h.2.2⟩, fun h => ⟨h.repo, h.remote, h.passwordFile⟩⟩

/-- Texts of printable ASCII characters come back, so the defaults do. -/
theorem writable_of_ascii (h : (text.all fun c => 0x20 ≤ c.toNat && c.toNat < 0x7F) = true) :
    Writable unicode text := by
  intro c hc hescape
  have hrange := List.all_eq_true.1 h c hc
  have hascii : c.toNat < 128 := by
    simp only [Bool.and_eq_true, decide_eq_true_eq] at hrange
    omega
  rw [NeedsEscape, isPlain_ascii hascii, hrange] at hescape
  exact absurd hescape.1 (by decide)

/-- A configuration comes back exactly if no text of it needs an escape that TOML does not have. -/
theorem load_save_iff (unicode : Unicode) (parse : List Char → Option Table) (hparse : ReadsSimple parse)
    (backup : BackupConfig) (saveCloud : SaveCloudConfig) :
    (BackupConfig.load parse (some (backup.save unicode)) = backup ↔ backup.IsWritable unicode) ∧
      (SaveCloudConfig.load parse (some (saveCloud.save unicode)) = saveCloud ↔
        saveCloud.IsWritable unicode) := by
  constructor
  · rw [← BackupConfig.isWritable_iff]
    rcases readTable_document unicode hparse backup.areWritten with
      ⟨hwritable, htable⟩ | ⟨hwritable, htable⟩
    · exact iff_of_true (BackupConfig.load_table backup htable) hwritable
    · refine iff_of_false (fun h => hwritable ?_) hwritable
      -- nothing is read, and the defaults need no escape
      have hdefault : BackupConfig.load parse (some (backup.save unicode)) = .default := by
        rw [BackupConfig.load, BackupConfig.save, htable]
      rw [← h, hdefault, BackupConfig.isWritable_iff]
      exact ⟨writable_of_ascii (by decide), List.forall_mem_nil _, List.forall_mem_nil _,
        writable_of_ascii (by decide)⟩
  · rw [← SaveCloudConfig.isWritable_iff]
    rcases readTable_document unicode hparse saveCloud.areWritten with
      ⟨hwritable, htable⟩ | ⟨hwritable, htable⟩
    · exact iff_of_true (SaveCloudConfig.load_table saveCloud htable) hwritable
    · refine iff_of_false (fun h => hwritable ?_) hwritable
      have hdefault : SaveCloudConfig.load parse (some (saveCloud.save unicode)) = .default := by
        rw [SaveCloudConfig.load, SaveCloudConfig.save, htable]
      rw [← h, hdefault, SaveCloudConfig.isWritable_iff]
      exact ⟨writable_of_ascii (by decide), List.forall_mem_nil _, List.forall_mem_nil _⟩

/-- Tables for texts in which the combining acute accent is the only character that is not ASCII. -/
def acute : Unicode where
  isPrintable := fun c => c.toNat != 0x301
  isGraphemeExtend := fun c => c.toNat == 0x301

theorem load_save_defaults :
    (BackupConfig.load readDocument (some (BackupConfig.default.save acute)) = .default ↔
        BackupConfig.default.IsWritable acute) ∧
      (SaveCloudConfig.load readDocument (some (SaveCloudConfig.default.save acute)) = .default ↔
        SaveCloudConfig.default.IsWritable acute) :=
  load_save_iff acute readDocument readsSimple_readDocument .default .default

/-- A repository on a medium whose name has a combining accent. -/
def accentedConfig : BackupConfig :=
  { BackupConfig.default with repo := "/run/media/user/Cafe\u0301/restic".toList, enabled := true }

/-- Nothing of the configuration comes back: the repository is the one on the same disk again. -/
theorem accent_resets_config :
    BackupConfig.load readDocument (some (accentedConfig.save acute)) = .default ∧
      BackupConfig.load readDocument (some (accentedConfig.save acute)) ≠ accentedConfig := by
  have hdefault : BackupConfig.load readDocument (some (accentedConfig.save acute)) = .default := by
    rcases readTable_document acute readsSimple_readDocument accentedConfig.areWritten with
      ⟨hwritable, -⟩ | ⟨-, htable⟩
    · have hrepo := (accentedConfig.isWritable_iff.1 hwritable).repo
      have hmem : Char.ofNat 0x301 ∈ accentedConfig.repo := by decide
      refine absurd ⟨?_, by decide, by decide, by decide⟩ (hrepo _ hmem)
      decide
    · rw [BackupConfig.load, BackupConfig.save, htable]
  have hne : BackupConfig.default ≠ accentedConfig := by
    intro h
    exact absurd (congrArg BackupConfig.enabled h) (by decide)
  exact ⟨hdefault, hdefault ▸ hne⟩

end Kyth.Backup
