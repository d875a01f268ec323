import Kyth.Guardian.Sessions

/-!
# The cooldown of a repair

`execute_recipe` finds the last execution of a recipe in the history, which a save cuts at 200
records. `cooldown_between` says that two executions are the cooldown apart in every run in which no
save cuts off the record of an execution that still cools its recipe down;
`cap_forgets_execution` is a run in which one does.
-/

namespace Kyth.Guardian

/-- A call that loads and saves with no other call in between. -/
structure Turn where
  op : Operation
  clock : Clock

/-- The file after a turn. -/
def Turn.after (file : Option GuardianState) (turn : Turn) : Option GuardianState :=
  Session.write file turn.op (loadState file) turn.clock

/-- The file after some turns. -/
def afterTurns (file : Option GuardianState) (turns : List Turn) : Option GuardianState :=
  turns.foldl Turn.after file

/-- The recipe that a turn executes, and whether the execution is verified. -/
def Turn.executed (file : Option GuardianState) (turn : Turn) : Option (Recipe × Bool) :=
  match turn.op with
  | .execute recipeId askpass result verifies =>
      match admitRecipe (loadState file) recipeId askpass turn.clock.pending turn.clock.cooldown with
      | .ok recipe => some (recipe, result.isOk && verifies)
      | .error _ => none
  | _ => none

/-- The readings of the clock during some turns. -/
def readings (turns : List Turn) : List ℚ :=
  turns.flatMap fun turn => [turn.clock.pending, turn.clock.cooldown, turn.clock.record]

/-- The saves of a turn cut off no record that still cools its recipe down. -/
def Turn.Spares (file : Option GuardianState) (turn : Turn) : Prop :=
  ∀ next, turn.op.next (loadState file) turn.clock = .ok next →
    ∀ full ∈ turn.op.uncapped (loadState file) turn.clock, ∀ e ∈ overflow full,
      ∀ recipe ∈ recipes, ¬ e.cools turn.clock.record recipe

/-- Every turn spares the records that still cool their recipe down. -/
def Spared : Option GuardianState → List Turn → Prop
  | _, [] => True
  | file, turn :: turns => turn.Spares file ∧ Spared (turn.after file) turns

variable {file : Option GuardianState} {turn first second : Turn}
  {turns earlier between : List Turn} {r : Entry} {recipe : Recipe}

theorem afterTurns_append (file : Option GuardianState) (turns turns' : List Turn) :
    afterTurns file (turns ++ turns') = afterTurns (afterTurns file turns) turns' :=
  List.foldl_append

theorem spared_append {turns' : List Turn} (h : Spared file (turns ++ turns')) :
    Spared (afterTurns file turns) turns' := by
  induction turns generalizing file with
  | nil => exact h
  | cons turn turns ih => exact ih h.2

theorem spares_of_length_le
    (h : ∀ full ∈ turn.op.uncapped (loadState file) turn.clock, full.length ≤ historyCap) :
    turn.Spares file := by
  intro next _ full hfull e he
  rw [overflow, Nat.sub_eq_zero_of_le (h full hfull)] at he
  cases he

/-! ### Records of executions -/

/-- A record that is no recommendation is lost to the cap alone. -/
theorem mem_overflow_of_lost {full : List Entry} (h : Lost r full)
    (hrecommended : r.isRecommended = false) : r ∈ overflow full := by
  obtain ⟨-, hrepeated, -⟩ | hmem := h
  · rw [hrecommended] at hrepeated
    cases hrepeated
  · exact hmem

theorem mem_after (hspares : turn.Spares file) (hrecommended : r.isRecommended = false)
    (h : r ∈ (loadState file).history) :
    r ∈ (loadState (turn.after file)).history ∨
      ∀ recipe ∈ recipes, ¬ r.cools turn.clock.record recipe := by
  unfold Turn.after Session.write
  cases hnext : turn.op.next (loadState file) turn.clock with
  | error message => exact .inl h
  | ok next =>
    obtain hmem | ⟨full, hfull, hlost⟩ := Operation.mem_or_lost hnext h
    · exact .inl hmem
    · exact .inr (hspares next hnext full hfull r (mem_overflow_of_lost hlost hrecommended))

theorem mem_afterTurns (hspared : Spared file turns) (hrecommended : r.isRecommended = false)
    (h : r ∈ (loadState file).history) :
    r ∈ (loadState (afterTurns file turns)).history ∨
      ∃ turn ∈ turns, ∀ recipe ∈ recipes, ¬ r.cools turn.clock.record recipe := by
  induction turns generalizing file with
  | nil => exact .inl h
  | cons turn turns ih =>
    obtain hmem | hcooled := mem_after hspared.1 hrecommended h
    · obtain hmem | ⟨later, hlater, hcooled⟩ := ih hspared.2 hmem
      · exact .inl hmem
      · exact .inr ⟨later, List.mem_cons_of_mem _ hlater, hcooled⟩
    · exact .inr ⟨turn, List.mem_cons_self, hcooled⟩

/-- The gate that an executed recipe passed. -/
theorem executed_eq_some {verified : Bool} (h : turn.executed file = some (recipe, verified)) :
    ∃ recipeId askpass result verifies,
      turn.op = .execute recipeId askpass result verifies ∧ verified = (result.isOk && verifies) ∧
        admitRecipe (loadState file) recipeId askpass turn.clock.pending turn.clock.cooldown =
          .ok recipe := by
  unfold Turn.executed at h
  split at h
  · rename_i recipeId askpass result verifies hop
    split at h
    · cases h
      exact ⟨recipeId, askpass, result, verifies, hop, rfl, by assumption⟩
    · cases h
  · cases h

/-- A verified execution leaves a record that cools its recipe down. -/
theorem exists_record (hspares : turn.Spares file) (h : turn.executed file = some (recipe, true)) :
    ∃ r : Entry, r.isRecommended = false ∧ (∀ now, r.cools now recipe ↔
        now - turn.clock.record < recipe.cooldown) ∧ recipe ∈ recipes ∧
      (r ∈ (loadState (turn.after file)).history ∨ ¬ r.cools turn.clock.record recipe) := by
  obtain ⟨recipeId, askpass, result, verifies, hop, hverified, hadmit⟩ := executed_eq_some h
  obtain ⟨hfind, -⟩ := Operation.admitRecipe_eq_ok hadmit
  have hrecipe : recipe ∈ recipes := List.mem_of_find?_eq_some hfind
  have hnext : turn.op.next (loadState file) turn.clock =
      .ok (recordExecution (loadState file) recipe result verifies turn.clock.record) := by
    rw [hop, Operation.next, hadmit]
    rfl
  refine ⟨executionRecord recipe result verifies turn.clock.record, rfl, fun now => ?_, hrecipe, ?_⟩
  · simp [Entry.cools, executionRecord, ← hverified]
  · have hmem : executionRecord recipe result verifies turn.clock.record ∈
        (loadState file).history ++
          [executionRecord recipe result verifies turn.clock.record] := by simp
    obtain hkept | ⟨full, hfull, hlost⟩ := Operation.mem_recordExecution askpass hfind hmem
    · unfold Turn.after Session.write
      rw [hnext]
      exact .inl hkept
    · rw [← hop] at hfull
      exact .inr (hspares _ hnext full hfull _ (mem_overflow_of_lost hlost rfl) recipe hrecipe)

/-! ### Executions of one recipe -/

theorem record_le_of_mem (hclock : (readings (earlier ++ [second])).Pairwise (· ≤ ·))
    (h : turn ∈ earlier) : turn.clock.record ≤ second.clock.cooldown := by
  rw [readings, List.flatMap_append] at hclock
  refine (List.pairwise_append.1 hclock).2.2 _ (List.mem_flatMap.2 ⟨turn, h, ?_⟩) _ ?_
  · simp
  · simp

/-- Two executions of a recipe, the first of them verified, are at least its cooldown apart, in every
run in which the clock never runs backwards and no save cuts off a record that still cools its
recipe down. -/
theorem cooldown_between {verified : Bool}
    (hclock : (readings (earlier ++ first :: between ++ [second])).Pairwise (· ≤ ·))
    (hspared : Spared file (earlier ++ first :: between))
    (hfirst : first.executed (afterTurns file earlier) = some (recipe, true))
    (hsecond : second.executed (afterTurns file (earlier ++ first :: between)) =
      some (recipe, verified)) :
    recipe.cooldown ≤ second.clock.cooldown - first.clock.record := by
  obtain ⟨hspares, hbetween⟩ := spared_append hspared
  obtain ⟨r, hrecommended, hcools, hrecipe, hkept⟩ := exists_record hspares hfirst
  have hafter : afterTurns file (earlier ++ first :: between) =
      afterTurns (first.after (afterTurns file earlier)) between := afterTurns_append _ _ _
  -- the record is in the history that the second execution loads, or it was cut off when it had
  -- cooled down already
  have hrecord : r ∈ (loadState (afterTurns file (earlier ++ first :: between))).history ∨
      ∃ turn ∈ earlier ++ first :: between, ¬ r.cools turn.clock.record recipe := by
    obtain hmem | hcooled := hkept
    · rw [hafter]
      obtain hmem | ⟨turn, hturn, hcooled⟩ := mem_afterTurns hbetween hrecommended hmem
      · exact .inl hmem
      · exact .inr ⟨turn, by simp [hturn], hcooled recipe hrecipe⟩
    · exact .inr ⟨first, by simp, hcooled⟩
  obtain hmem | ⟨turn, hturn, hcooled⟩ := hrecord
  · obtain ⟨recipeId, askpass, result, verifies, -, -, hadmit⟩ := executed_eq_some hsecond
    obtain ⟨-, hcooldown⟩ := Operation.admitRecipe_eq_ok hadmit
    have hcooled : ¬ r.cools second.clock.cooldown recipe := by
      intro hcools
      have hactive : cooldownActive
          (loadState (afterTurns file (earlier ++ first :: between)))
          second.clock.cooldown recipe = true :=
        List.any_eq_true.2 ⟨r, hmem, decide_eq_true hcools⟩
      rw [hcooldown] at hactive
      cases hactive
    exact not_lt.1 (mt (hcools _).2 hcooled)
  · have hlate : turn.clock.record ≤ second.clock.cooldown := record_le_of_mem hclock hturn
    have hpast : recipe.cooldown ≤ turn.clock.record - first.clock.record :=
      not_lt.1 (mt (hcools _).2 hcooled)
    linarith

/-- Storage maintenance, as the recipes have it. -/
def storageMaint : Recipe where
  id := "storage.maint"
  title := "Run storage maintenance"
  component := "storage"
  command := ["/usr/bin/kyth-btrfs-maint"]
  risk := .safe
  cooldown := 86400

/-- A service check that recommends storage maintenance after some other decisions. -/
def recommendMaint (others : List Entry) (now : ℚ) : Turn where
  op := .serviceCheck ["storage"] (others ++ [Session.recommendation "storage.maint" now])
  clock := Session.atOnce now

/-- An execution of storage maintenance that is verified. -/
def executeMaint (now : ℚ) : Turn where
  op := .execute "storage.maint" true (.ok "maintained") true
  clock := Session.atOnce now

theorem cooldown_between_maintenance :
    (storageMaint.cooldown : ℚ) ≤
      (executeMaint 90002).clock.cooldown - (executeMaint 1).clock.record := by
  have hclock : (readings ([recommendMaint [] 0] ++ executeMaint 1 :: [recommendMaint [] 90001] ++
      [executeMaint 90002])).Pairwise (· ≤ ·) := by
    decide
  have hspared : Spared none
      ([recommendMaint [] 0] ++ executeMaint 1 :: [recommendMaint [] 90001]) := by
    refine ⟨spares_of_length_le ?_, spares_of_length_le ?_, spares_of_length_le ?_, trivial⟩
    · decide +kernel
    · decide +kernel
    · decide +kernel
  have hfirst : (executeMaint 1).executed (afterTurns none [recommendMaint [] 0]) =
      some (storageMaint, true) := by
    decide +kernel
  have hsecond : (executeMaint 90002).executed (afterTurns none
      ([recommendMaint [] 0] ++ executeMaint 1 :: [recommendMaint [] 90001])) =
      some (storageMaint, true) := by
    decide +kernel
  exact cooldown_between hclock hspared hfirst hsecond

/-- An execution that the service check reports and that failed. -/
def failedRestart : Entry where
  timestamp := some 2
  recipeId := some "audio.restart"
  action := some "executed"
  verified := some false

/-- A service check brings 200 other records within a second of the maintenance. Its record is cut
off, and the maintenance runs again. -/
theorem cap_forgets_execution :
    (readings [recommendMaint [] 0, executeMaint 1,
        recommendMaint (List.replicate 200 failedRestart) 2, executeMaint 3]).Pairwise (· ≤ ·) ∧
      (executeMaint 1).executed (afterTurns none [recommendMaint [] 0]) =
        some (storageMaint, true) ∧
      (executeMaint 3).executed (afterTurns none [recommendMaint [] 0, executeMaint 1,
        recommendMaint (List.replicate 200 failedRestart) 2]) = some (storageMaint, true) ∧
      (executeMaint 3).clock.cooldown - (executeMaint 1).clock.record < storageMaint.cooldown := by
  refine ⟨?_, ?_, ?_, ?_⟩
  · decide
  · decide +kernel
  · decide +kernel
  · decide +kernel

end Kyth.Guardian
