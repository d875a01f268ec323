import Kyth.Lib.Str

/-!
# Kernel arguments (`gaming_kargs.rs`)

A profile and two lists of the user say which arguments the kernel should have and which it should
not. `kargs_drift` compares them with the command line, and `kargs_apply_action` plans the calls of
`bootc` or `rpm-ostree` that bring it in line. The comparison asks whether the text of the command
line contains the text of an argument; `meetsPlan_iff` says when this answers for whole arguments.
-/

namespace Kyth.Gaming

open Str

/-- `KargsConfig`. -/
structure KargsConfig where
  profile : String := "balanced"
  customAdd : List String := []
  customRemove : List String := []

/-- The arguments of a profile. -/
def profileKargs (profile : String) : List String :=
  if profile = "performance" then
    ["amd_pstate=active", "preempt=full", "transparent_hugepage=madvise"]
  else if profile = "gaming" then
    ["amd_pstate=active", "preempt=full", "transparent_hugepage=madvise", "mitigations=off"]
  else []

/-- One turn of the loop of `desired_kargs`. -/
def pushKarg (args : List String) (arg : String) : List String :=
  if arg ≠ "" ∧ arg ∉ args then args ++ [arg] else args

/-- `desired_kargs`. -/
def desiredKargs (config : KargsConfig) : List String :=
  config.customAdd.foldl pushKarg (profileKargs config.profile)

/-- `KargsDrift`. -/
structure KargsDrift where
  missing : List String
  extra : List String
  desired : List String
  profile : String

/-- `kargs_drift`. -/
def kargsDrift (config : KargsConfig) (cmdline : String) : KargsDrift where
  missing := (desiredKargs config).filter fun arg => !contains cmdline arg
  extra := config.customRemove.filter fun arg => arg != "" && contains cmdline arg
  desired := desiredKargs config
  profile := config.profile

/-- `valid_karg`. -/
def validKarg (token : String) : Bool :=
  let token := trim token
  if token = "" ∨ 128 < token.utf8ByteSize ∨ startsWith token "-" then false
  else
    all token fun c =>
      isAsciiAlphanumeric c || c == '_' || c == '.' || c == '=' || c == '-' || c == ','

/-- `KargsApplyAction`. -/
inductive KargsApplyAction
  | alreadyInSync
  | needsMutation (program : String) (args : List String)
  deriving DecidableEq

/-- The arguments of a mutation. -/
def mutationArgs (drift : KargsDrift) : List String :=
  "kargs" :: drift.missing.map (fun token => "--append=" ++ token) ++
    drift.extra.map fun token => "--delete=" ++ token

/-- `kargs_apply_action`. -/
def kargsApplyAction (config : KargsConfig) (cmdline : String) (bootcExists rpmOstreeExists : Bool) :
    Except String KargsApplyAction :=
  let drift := kargsDrift config cmdline
  match (drift.missing ++ drift.extra).find? fun token => !validKarg token with
  | some token =>
      .error ("refusing unsafe kernel argument " ++ debug token ++ "; profile is saved only")
  | none =>
      if drift.missing = [] ∧ drift.extra = [] then .ok .alreadyInSync
      else if bootcExists then .ok (.needsMutation "bootc" (mutationArgs drift))
      else if rpmOstreeExists then .ok (.needsMutation "rpm-ostree" (mutationArgs drift))
      else
        .error ("refusing to claim success: kernel cmdline is not in sync (missing [" ++
          ", ".intercalate drift.missing ++ "], extra [" ++ ", ".intercalate drift.extra ++
          "]). Neither bootc nor rpm-ostree is available to mutate kernel args.")

/-! ### Command lines as lists of arguments -/

/-- The arguments of a command line: what its spaces separate. -/
def tokens (cmdline : String) : List String := split cmdline ' '

/-- The command line of a list of arguments. -/
def commandLine (tokens : List String) : String :=
  String.ofList ([' '].intercalate (tokens.map String.toList))

/-- The tokens of the arguments `--delete=` of a mutation. -/
def plannedDeletes (args : List String) : List String := args.filterMap (stripPrefix · "--delete=")

/-- The tokens of the arguments `--append=` of a mutation. -/
def plannedAppends (args : List String) : List String := args.filterMap (stripPrefix · "--append=")

/-- What a mutation makes of a list of arguments. -/
def applyPlan (tokens args : List String) : List String :=
  tokens.filter (fun token => token ∉ plannedDeletes args) ++ plannedAppends args

/-- Every desired argument is there, and none that is to be removed. -/
def InSync (config : KargsConfig) (tokens : List String) : Prop :=
  (∀ arg ∈ desiredKargs config, arg ∈ tokens) ∧ ∀ arg ∈ config.customRemove, arg ∉ tokens

/-- The action tells whether the command line is in sync; and if it is not, then the plan makes it
so, when no argument is both desired and to be removed. -/
def MeetsPlan (config : KargsConfig) (cmdline : String) (bootcExists rpmOstreeExists : Bool) : Prop :=
  (kargsApplyAction config cmdline bootcExists rpmOstreeExists = .ok .alreadyInSync ↔
      InSync config (tokens cmdline)) ∧
    (kargsApplyAction config cmdline bootcExists rpmOstreeExists ≠ .ok .alreadyInSync →
      ∃ program args, kargsApplyAction config cmdline bootcExists rpmOstreeExists =
          .ok (.needsMutation program args) ∧
        ((∀ arg ∈ desiredKargs config, arg ∉ config.customRemove) →
          kargsApplyAction config (commandLine (applyPlan (tokens cmdline) args)) bootcExists
            rpmOstreeExists = .ok .alreadyInSync))

/-! ### Parts of a text -/

variable {a b text : List Char} {tokens' : List (List Char)} {config : KargsConfig}
  {cmdline arg token : String} {bootcExists rpmOstreeExists : Bool}

/-- A part without the separator lies on one side of it. -/
theorem infix_append_cons {c : Char} (hc : c ∉ a) (h : a <:+: b ++ c :: text) :
    a <:+: b ∨ a <:+: text := by
  have hstart : ∀ b : List Char, a <+: b ++ c :: text → a <+: b := by
    intro b hb
    have hsep : b ++ [c] <+: b ++ c :: text := ⟨text, by simp⟩
    obtain hle | hle := List.prefix_or_prefix_of_prefix hb hsep
    · obtain heq | hle := List.prefix_concat_iff.1 hle
      · exact absurd (heq ▸ List.mem_append_right b (List.mem_singleton_self c)) hc
      · exact hle
    · exact absurd (hle.subset (List.mem_append_right b (List.mem_singleton_self c))) hc
  induction b with
  | nil =>
    obtain hp | hi := List.infix_cons_iff.1 h
    · exact .inl (hstart [] hp).isInfix
    · exact .inr hi
  | cons d b ih =>
    obtain hp | hi := List.infix_cons_iff.1 h
    · exact .inl (hstart (d :: b) hp).isInfix
    · exact (ih hi).imp_left fun hb => hb.trans (List.suffix_cons d b).isInfix

/-- A part of a command line without blanks is a part of one argument. -/
theorem infix_intercalate (hblank : ' ' ∉ a) (hne : a ≠ []) :
    a <:+: [' '].intercalate tokens' ↔ ∃ token ∈ tokens', a <:+: token := by
  induction tokens' with
  | nil => simp [hne]
  | cons first rest ih =>
    cases rest with
    | nil => simp
    | cons second rest =>
      rw [List.intercalate_cons_cons, List.append_assoc, List.singleton_append, List.exists_mem_cons_iff,
        ← ih]
      constructor
      · exact infix_append_cons hblank
      · rintro (h | h)
        · exact h.trans (List.prefix_append _ _).isInfix
        · exact h.trans (List.IsSuffix.isInfix ⟨first ++ [' '], by simp⟩)

/-- An argument is a part of the command line that it stands on. -/
theorem infix_of_mem {token : List Char} (h : token ∈ tokens') :
    token <:+: [' '].intercalate tokens' := by
  induction tokens' with
  | nil => cases h
  | cons first rest ih =>
    cases rest with
    | nil =>
      obtain rfl := List.mem_singleton.1 h
      simp
    | cons second rest =>
      rw [List.intercalate_cons_cons, List.append_assoc, List.singleton_append]
      obtain rfl | h := List.mem_cons.1 h
      · exact (List.prefix_append _ _).isInfix
      · exact (ih h).trans (List.IsSuffix.isInfix ⟨first ++ [' '], by simp⟩)

theorem contains_iff {s p : String} : contains s p = true ↔ p.toList <:+: s.toList := by
  rw [contains, decide_eq_true_iff]

/-- A command line is the line of its arguments. -/
theorem commandLine_tokens (cmdline : String) : commandLine (tokens cmdline) = cmdline := by
  have hlists : (tokens cmdline).map String.toList = cmdline.toList.splitOn ' ' := by
    simp [tokens, split, Function.comp_def]
  rw [commandLine, hlists, List.intercalate_splitOn, String.ofList_toList]

/-! ### What an argument is a part of -/

/-- The argument is a part of one of the others, or of several of them and the blanks between. -/
def PartOf (arg : String) (tokens : List String) : Prop :=
  (∃ token ∈ tokens, contains token arg = true) ∨
    ' ' ∈ arg.toList ∧ contains (commandLine tokens) arg = true

instance (arg : String) (tokens : List String) : Decidable (PartOf arg tokens) :=
  inferInstanceAs (Decidable (_ ∨ _))

theorem contains_commandLine (hne : arg ≠ "") {tokens : List String} :
    contains (commandLine tokens) arg = true ↔ PartOf arg tokens := by
  have hne' : arg.toList ≠ [] := fun hnil => hne (String.toList_eq_nil_iff.1 hnil)
  have hmap : (∃ token ∈ tokens.map String.toList, arg.toList <:+: token) ↔
      ∃ token ∈ tokens, contains token arg = true := by
    simp [contains_iff]
  by_cases hblank : ' ' ∈ arg.toList
  · refine ⟨fun h => .inr ⟨hblank, h⟩, ?_⟩
    rintro (⟨token, htoken, h⟩ | ⟨-, h⟩)
    · rw [contains_iff] at h ⊢
      rw [commandLine, String.toList_ofList]
      exact h.trans (infix_of_mem (List.mem_map_of_mem htoken))
    · exact h
  · rw [contains_iff, commandLine, String.toList_ofList, infix_intercalate hblank hne', hmap]
    exact ⟨.inl, fun h => h.resolve_right fun h => hblank h.1⟩

/-- An argument of a command line occurs in it. -/
theorem contains_of_mem_tokens (h : token ∈ tokens cmdline) : contains cmdline token = true := by
  have hpart : token.toList <:+: (commandLine (tokens cmdline)).toList := by
    rw [commandLine, String.toList_ofList]
    exact infix_of_mem (List.mem_map_of_mem h)
  rwa [contains_iff, ← commandLine_tokens cmdline]

/-! ### The plan -/

/-- A configuration whose own arguments are valid. -/
def KargsConfig.Valid (config : KargsConfig) : Prop :=
  ∀ arg ∈ config.customAdd ++ config.customRemove, validKarg arg = true

theorem ne_of_validKarg (h : validKarg arg = true) : arg ≠ "" := by
  rintro rfl
  revert h
  decide

theorem validKarg_profile (profile : String) : ∀ arg ∈ profileKargs profile, validKarg arg = true := by
  unfold profileKargs
  split_ifs
  · decide
  · decide
  · exact List.forall_mem_nil _

theorem mem_desiredKargs (h : arg ∈ desiredKargs config) :
    arg ∈ profileKargs config.profile ∨ arg ∈ config.customAdd := by
  unfold desiredKargs at h
  generalize profileKargs config.profile = args at h ⊢
  generalize config.customAdd = adds at h ⊢
  induction adds generalizing args with
  | nil => exact .inl h
  | cons first rest ih =>
    obtain hargs | hrest := ih (pushKarg args first) h
    · rw [pushKarg] at hargs
      split_ifs at hargs
      · obtain hargs | hfirst := List.mem_append.1 hargs
        · exact .inl hargs
        · exact .inr (List.mem_cons.2 (.inl (List.mem_singleton.1 hfirst)))
      · exact .inl hargs
    · exact .inr (List.mem_cons_of_mem _ hrest)

theorem validKarg_desired (hvalid : config.Valid) (h : arg ∈ desiredKargs config) :
    validKarg arg = true := by
  obtain hprofile | hadd := mem_desiredKargs h
  · exact validKarg_profile _ arg hprofile
  · exact hvalid arg (List.mem_append_left _ hadd)

/-- What the text of the command line says: it contains every desired argument and none that is to
be removed. -/
def TextInSync (config : KargsConfig) (cmdline : String) : Prop :=
  (∀ arg ∈ desiredKargs config, contains cmdline arg = true) ∧
    ∀ arg ∈ config.customRemove, contains cmdline arg = false

/-- The decision of `kargs_apply_action` for a valid configuration and a writer. -/
theorem kargsApplyAction_cases (hvalid : config.Valid) (cmdline : String)
    (hwriter : (bootcExists || rpmOstreeExists) = true) :
    TextInSync config cmdline ∧
        kargsApplyAction config cmdline bootcExists rpmOstreeExists = .ok .alreadyInSync ∨
      ¬ TextInSync config cmdline ∧
        ∃ program, kargsApplyAction config cmdline bootcExists rpmOstreeExists =
          .ok (.needsMutation program (mutationArgs (kargsDrift config cmdline))) := by
  have hfind : ((kargsDrift config cmdline).missing ++ (kargsDrift config cmdline).extra).find?
      (fun token => !validKarg token) = none := by
    rw [List.find?_eq_none]
    intro token htoken
    obtain hmissing | hextra := List.mem_append.1 htoken
    · simp [validKarg_desired hvalid (List.mem_filter.1 hmissing).1]
    · simp [hvalid token (List.mem_append_right _ (List.mem_filter.1 hextra).1)]
  have hsync : (kargsDrift config cmdline).missing = [] ∧ (kargsDrift config cmdline).extra = [] ↔
      TextInSync config cmdline := by
    rw [kargsDrift, List.filter_eq_nil_iff, List.filter_eq_nil_iff, TextInSync]
    refine and_congr (by simp) (forall₂_congr fun arg harg => ?_)
    simp [ne_of_validKarg (hvalid arg (List.mem_append_right _ harg))]
  unfold kargsApplyAction
  simp only [hfind]
  by_cases h : TextInSync config cmdline
  · exact .inl ⟨h, if_pos (hsync.2 h)⟩
  · refine .inr ⟨h, ?_⟩
    rw [if_neg (mt hsync.1 h)]
    cases bootcExists with
    | true => exact ⟨"bootc", rfl⟩
    | false =>
      obtain rfl : rpmOstreeExists = true := hwriter
      exact ⟨"rpm-ostree", rfl⟩

theorem kargsApplyAction_eq_inSync (hvalid : config.Valid)
    (hwriter : (bootcExists || rpmOstreeExists) = true) (cmdline : String) :
    kargsApplyAction config cmdline bootcExists rpmOstreeExists = .ok .alreadyInSync ↔
      TextInSync config cmdline := by
  obtain ⟨hsync, haction⟩ | ⟨hsync, program, haction⟩ :=
    kargsApplyAction_cases hvalid cmdline hwriter
  · exact iff_of_true haction hsync
  · rw [haction]
    exact iff_of_false (fun h => by cases h) hsync

theorem stripPrefix_append (p s : String) : stripPrefix (p ++ s) p = some s := by
  rw [stripPrefix, if_pos (startsWith_append p s), String.toList_append, List.drop_left,
    String.ofList_toList]

/-- The tokens behind one flag. -/
theorem filterMap_flag (flag : String) (l : List String) :
    (l.map fun token => flag ++ token).filterMap (stripPrefix · flag) = l := by
  simp [List.filterMap_map, stripPrefix_append]

theorem filterMap_other {flag other : String} (h : ∀ token, stripPrefix (other ++ token) flag = none)
    (l : List String) : (l.map fun token => other ++ token).filterMap (stripPrefix · flag) = [] := by
  simp [List.filterMap_map, h]

theorem plannedDeletes_mutationArgs (drift : KargsDrift) :
    plannedDeletes (mutationArgs drift) = drift.extra := by
  have hother : ∀ token, stripPrefix ("--append=" ++ token) "--delete=" = none := by
    intro token
    simp [stripPrefix, startsWith]
  have hkargs : stripPrefix "kargs" "--delete=" = none := by decide
  simp only [plannedDeletes, mutationArgs, List.cons_append, List.filterMap_cons, hkargs,
    List.filterMap_append, filterMap_flag, filterMap_other hother, List.nil_append]

theorem plannedAppends_mutationArgs (drift : KargsDrift) :
    plannedAppends (mutationArgs drift) = drift.missing := by
  have hother : ∀ token, stripPrefix ("--delete=" ++ token) "--append=" = none := by
    intro token
    simp [stripPrefix, startsWith]
  have hkargs : stripPrefix "kargs" "--append=" = none := by decide
  simp only [plannedAppends, mutationArgs, List.cons_append, List.filterMap_cons, hkargs,
    List.filterMap_append, filterMap_flag, filterMap_other hother, List.append_nil]

/-- The arguments that stay on the command line, and those that do not occur in its text yet. -/
def keptAndNew (config : KargsConfig) (cmdline : String) : List String :=
  (tokens cmdline).filter (fun token => token ∉ config.customRemove) ++
    (desiredKargs config).filter fun arg => !contains cmdline arg

theorem applyPlan_eq (hvalid : config.Valid) (cmdline : String) :
    applyPlan (tokens cmdline) (mutationArgs (kargsDrift config cmdline)) =
      keptAndNew config cmdline := by
  rw [applyPlan, plannedDeletes_mutationArgs, plannedAppends_mutationArgs, keptAndNew]
  congr 1
  refine List.filter_congr fun token htoken => decide_eq_decide.2 (not_congr ?_)
  rw [kargsDrift, List.mem_filter, contains_of_mem_tokens htoken]
  refine ⟨fun h => h.1, fun h => ⟨h, ?_⟩⟩
  simp [ne_of_validKarg (hvalid token (List.mem_append_right _ h))]

/-- What the claim on the plan comes to: when the text contains what it should, every desired
argument is one of its own; when it does not, no argument is both desired and to be removed, and
among the arguments that stay and those that are new none has one that is to be removed as a part,
and every desired one that occurs in the text is a part of one. -/
def Settles (config : KargsConfig) (cmdline : String) : Prop :=
  (TextInSync config cmdline → ∀ arg ∈ desiredKargs config, arg ∈ tokens cmdline) ∧
    (¬ TextInSync config cmdline → (∀ arg ∈ desiredKargs config, arg ∉ config.customRemove) →
      (∀ arg ∈ desiredKargs config, contains cmdline arg = true →
          PartOf arg (keptAndNew config cmdline)) ∧
        ∀ arg ∈ config.customRemove, ¬ PartOf arg (keptAndNew config cmdline))

/-- After the plan the text is in sync when no kept or new argument has the wrong part. -/
theorem textInSync_applyPlan (hvalid : config.Valid) (cmdline : String) :
    TextInSync config (commandLine (keptAndNew config cmdline)) ↔
      (∀ arg ∈ desiredKargs config, contains cmdline arg = true →
          PartOf arg (keptAndNew config cmdline)) ∧
        ∀ arg ∈ config.customRemove, ¬ PartOf arg (keptAndNew config cmdline) := by
  refine and_congr ?_ (forall₂_congr fun arg harg => ?_)
  · refine forall₂_congr fun arg harg => ?_
    rw [contains_commandLine (ne_of_validKarg (validKarg_desired hvalid harg))]
    refine ⟨fun h _ => h, fun h => ?_⟩
    cases hcontains : contains cmdline arg with
    | true => exact h hcontains
    | false =>
      have hnew : arg ∈ keptAndNew config cmdline :=
        List.mem_append_right _ (List.mem_filter.2 ⟨harg, by rw [hcontains]; rfl⟩)
      exact .inl ⟨arg, hnew, contains_iff.2 List.infix_rfl⟩
  · rw [← contains_commandLine (ne_of_validKarg (hvalid arg (List.mem_append_right _ harg))),
      Bool.not_eq_true]

/-- With a writer at hand, the action answers for whole arguments and its plan brings the command
line in sync exactly when no part of an argument is taken for the whole. -/
theorem meetsPlan_iff (config : KargsConfig) (cmdline : String) (bootcExists rpmOstreeExists : Bool)
    (hvalid : config.Valid) (hwriter : (bootcExists || rpmOstreeExists) = true) :
    MeetsPlan config cmdline bootcExists rpmOstreeExists ↔ Settles config cmdline := by
  have hremoved : TextInSync config cmdline → ∀ arg ∈ config.customRemove, arg ∉ tokens cmdline := by
    intro hsync arg harg hmem
    have hcontains := contains_of_mem_tokens hmem
    rw [hsync.2 arg harg] at hcontains
    cases hcontains
  obtain ⟨hsync, haction⟩ | ⟨hsync, program, haction⟩ :=
    kargsApplyAction_cases hvalid cmdline hwriter
  · rw [MeetsPlan, Settles, haction]
    constructor
    · rintro ⟨hagree, -⟩
      exact ⟨fun _ => (hagree.1 rfl).1, fun h => absurd hsync h⟩
    · rintro ⟨htokens, -⟩
      exact ⟨iff_of_true rfl ⟨htokens hsync, hremoved hsync⟩, fun h => absurd rfl h⟩
  · have hne : kargsApplyAction config cmdline bootcExists rpmOstreeExists ≠ .ok .alreadyInSync := by
      rw [haction]
      exact fun h => by cases h
    have hplan := (kargsApplyAction_eq_inSync hvalid hwriter
      (commandLine (keptAndNew config cmdline))).trans (textInSync_applyPlan hvalid cmdline)
    rw [← applyPlan_eq hvalid cmdline] at hplan
    rw [MeetsPlan, Settles, ← applyPlan_eq hvalid cmdline]
    constructor
    · rintro ⟨-, hmutation⟩
      refine ⟨fun h => absurd h hsync, fun _ hdisjoint => ?_⟩
      obtain ⟨program', args, hargs, hfixed⟩ := hmutation hne
      rw [haction] at hargs
      cases hargs
      exact hplan.1 (hfixed hdisjoint)
    · rintro ⟨-, hparts⟩
      refine ⟨iff_of_false hne ?_, fun _ => ⟨program, _, haction, fun hdisjoint =>
        hplan.2 (hparts hsync hdisjoint)⟩⟩
      -- on a line that is in sync all arguments stay and none is new
      rintro ⟨hdesired, hremove⟩
      have hdisjoint : ∀ arg ∈ desiredKargs config, arg ∉ config.customRemove :=
        fun arg harg hmem => hremove arg hmem (hdesired arg harg)
      have hsame : keptAndNew config cmdline = tokens cmdline := by
        have hkept : ∀ token ∈ tokens cmdline, token ∉ config.customRemove :=
          fun token htoken hmem => hremove token hmem htoken
        have hnew : ∀ arg ∈ desiredKargs config, contains cmdline arg = true :=
          fun arg harg => contains_of_mem_tokens (hdesired arg harg)
        rw [keptAndNew, List.filter_eq_self.2 (by simpa using hkept),
          List.filter_eq_nil_iff.2 (by simpa using hnew), List.append_nil]
      obtain ⟨-, hnone⟩ := hparts hsync hdisjoint
      rw [applyPlan_eq hvalid, hsame] at hnone
      refine hsync ⟨fun arg harg => contains_of_mem_tokens (hdesired arg harg), fun arg harg => ?_⟩
      have hne := ne_of_validKarg (hvalid arg (List.mem_append_right _ harg))
      rw [← Bool.not_eq_true, ← commandLine_tokens cmdline, contains_commandLine hne]
      exact hnone arg harg

/-- A profile that adds three arguments, and one argument to remove. -/
def quietConfig : KargsConfig where
  profile := "performance"
  customRemove := ["quiet"]

theorem quietConfig_valid : quietConfig.Valid := by
  unfold KargsConfig.Valid
  decide

theorem meetsPlan_quiet : MeetsPlan quietConfig "splash quiet" true false := by
  refine (meetsPlan_iff quietConfig "splash quiet" true false quietConfig_valid rfl).2
    ⟨fun h => absurd (h.2 "quiet" (by decide)) (by decide), fun _ _ => ⟨?_, ?_⟩⟩
  · decide
  · decide

/-- `quiet` is not an argument of the line, but a part of one: the plan deletes nothing, and the
line never is in sync. -/
theorem quiet_part_of_argument :
    quietConfig.Valid ∧ InSync quietConfig (tokens
        "amd_pstate=active preempt=full transparent_hugepage=madvise quietboot=1") ∧
      ¬ MeetsPlan quietConfig
        "amd_pstate=active preempt=full transparent_hugepage=madvise quietboot=1" true false := by
  have hsync : InSync quietConfig (tokens
      "amd_pstate=active preempt=full transparent_hugepage=madvise quietboot=1") := by
    refine ⟨?_, ?_⟩ <;> decide
  refine ⟨quietConfig_valid, hsync, fun h => ?_⟩
  have haction : kargsApplyAction quietConfig
      "amd_pstate=active preempt=full transparent_hugepage=madvise quietboot=1" true false ≠
        .ok .alreadyInSync := by decide +kernel
  exact haction (h.1.2 hsync)

end Kyth.Gaming
