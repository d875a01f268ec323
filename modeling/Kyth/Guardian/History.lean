import Kyth.Guardian.State

/-!
# What a save keeps

A save may drop records in two ways: it compacts repeated recommendations of a recipe, and it cuts
the history at 200 records. `Operation.mem_or_lost` says that a call loses no other record of the
state that it loaded.
-/

namespace Kyth.Guardian

/-! ### Reasons for losing a record -/

/-- The record is a recommendation, and the history has one of the same recipe. -/
def Repeated (r : Entry) (history : List Entry) : Prop :=
  r.isRecommended = true ∧ ∃ e ∈ history, e.isRecommended = true ∧ e.recipe = r.recipe

/-- The records beyond the cap, the oldest ones. -/
def overflow (history : List Entry) : List Entry := history.take (history.length - historyCap)

/-- A history lost the record: another recommendation of its recipe is there in its place, or it is
beyond the cap. -/
def Lost (r : Entry) (history : List Entry) : Prop :=
  r ∉ history ∧ Repeated r history ∨ r ∈ overflow history

/-- Every record is still there or repeated. -/
def Covers (history history' : List Entry) : Prop :=
  ∀ r ∈ history, r ∈ history' ∨ Repeated r history'

variable {history history' history'' : List Entry} {r record item : Entry}

theorem Covers.of_subset (h : history ⊆ history') : Covers history history' :=
  fun _ hr => .inl (h hr)

theorem Covers.trans (h : Covers history history') (h' : Covers history' history'') :
    Covers history history'' := by
  intro r hr
  obtain hr | ⟨hrecommended, e, he, herecommended, hsame⟩ := h r hr
  · exact h' r hr
  refine .inr ⟨hrecommended, ?_⟩
  obtain he | ⟨-, e', he', he'recommended, hsame'⟩ := h' e he
  · exact ⟨e, he, herecommended, hsame⟩
  · exact ⟨e', he', he'recommended, hsame'.trans hsame⟩

theorem mem_capHistory_or_overflow (h : r ∈ history) :
    r ∈ capHistory history ∨ r ∈ overflow history := by
  unfold capHistory
  rw [← List.take_append_drop (history.length - historyCap) history] at h
  exact (List.mem_append.1 h).symm

/-! ### Appending and coalescing -/

theorem replaceLatest_spec {recipeId : String}
    (h : replaceLatest recipeId record history = some history') :
    record ∈ history' ∧
      ∀ e ∈ history, e ∈ history' ∨ e.isRecommended = true ∧ e.recipeId = some recipeId := by
  induction history generalizing history' with
  | nil => cases h
  | cons previous older ih =>
    rw [replaceLatest] at h
    split_ifs at h with hother hrecommended
    · obtain ⟨replaced, hreplaced, rfl⟩ := Option.map_eq_some_iff.1 h
      obtain ⟨hmem, hold⟩ := ih hreplaced
      refine ⟨List.mem_cons_of_mem _ hmem, fun e he => ?_⟩
      obtain rfl | he := List.mem_cons.1 he
      · exact .inl List.mem_cons_self
      · exact (hold e he).imp_left (List.mem_cons_of_mem _)
    · cases h
      refine ⟨List.mem_cons_self, fun e he => ?_⟩
      obtain rfl | he := List.mem_cons.1 he
      · exact .inr ⟨hrecommended, not_not.1 hother⟩
      · exact .inl (List.mem_cons_of_mem _ he)

theorem covers_appendHistoryRecord (history : List Entry) (record : Entry) :
    Covers history (appendHistoryRecord history record) := by
  unfold appendHistoryRecord
  split
  · rename_i recipeId hrecommended hrecipe
    split
    · rename_i replaced hreplaced
      obtain ⟨hmem, hold⟩ := replaceLatest_spec hreplaced
      intro r hr
      obtain hr | ⟨hrrecommended, hrrecipe⟩ := hold r (List.mem_reverse.2 hr)
      · exact .inl (List.mem_reverse.2 hr)
      · refine .inr ⟨hrrecommended, record, List.mem_reverse.2 hmem, hrecommended, ?_⟩
        rw [Entry.recipe, Entry.recipe, hrecipe, hrrecipe]
    · exact Covers.of_subset (List.subset_append_left _ _)
  · exact Covers.of_subset (List.subset_append_left _ _)

theorem covers_foldl_append (history decisions : List Entry) :
    Covers history (decisions.foldl appendHistoryRecord history) := by
  induction decisions generalizing history with
  | nil => exact Covers.of_subset (List.Subset.refl _)
  | cons decision decisions ih =>
    exact (covers_appendHistoryRecord history decision).trans (ih _)

/-- Every open recommendation is where the map says it is. -/
def IsOpen (acc : NameMap ℕ × List Entry) : Prop :=
  ∀ recipe i, acc.1.lookup recipe = some i →
    ∃ e, acc.2[i]? = some e ∧ e.isRecommended = true ∧ e.recipe = recipe

theorem getElem?_append_of_some {i : ℕ} {e : Entry} (h : history[i]? = some e) :
    (history ++ history')[i]? = some e := by
  rw [List.getElem?_append_left (List.getElem?_eq_some_iff.1 h).1, h]

theorem IsOpen.step {acc : NameMap ℕ × List Entry} (h : IsOpen acc) (item : Entry) :
    IsOpen (coalesceStep acc item) := by
  intro recipe i hlookup
  unfold coalesceStep at hlookup ⊢
  split_ifs at hlookup ⊢ with hrecommended hrecipe
  · cases hprevious : acc.1.lookup item.recipe with
    | some previous =>
      simp only [hprevious] at hlookup ⊢
      obtain ⟨e, he, herecommended, hesame⟩ := h recipe i hlookup
      by_cases hi : previous = i
      · subst hi
        obtain ⟨old, hold, -, hsame⟩ := h item.recipe previous hprevious
        have hrecipes : item.recipe = recipe := by
          rw [← hsame, ← hesame]
          rw [hold] at he
          cases he
          rfl
        have hlt := (List.getElem?_eq_some_iff.1 hold).1
        exact ⟨item, by simp [hlt], hrecommended.2, hrecipes⟩
      · exact ⟨e, by rw [List.getElem?_set_ne hi, he], herecommended, hesame⟩
    | none =>
      simp only [hprevious] at hlookup ⊢
      by_cases hsame : recipe = item.recipe
      · subst hsame
        rw [AList.lookup_insert] at hlookup
        cases hlookup
        exact ⟨item, by simp, hrecommended.2, rfl⟩
      · rw [AList.lookup_insert_ne hsame] at hlookup
        obtain ⟨e, he, hrest⟩ := h recipe i hlookup
        exact ⟨e, getElem?_append_of_some he, hrest⟩
  · have hold : acc.1.lookup recipe = some i := by
      by_cases hsame : recipe = item.recipe
      · subst hsame
        rw [AList.lookup_erase] at hlookup
        cases hlookup
      · rwa [AList.lookup_erase_ne hsame] at hlookup
    obtain ⟨e, he, hrest⟩ := h recipe i hold
    exact ⟨e, getElem?_append_of_some he, hrest⟩
  · obtain ⟨e, he, hrest⟩ := h recipe i hlookup
    exact ⟨e, getElem?_append_of_some he, hrest⟩

/-- A turn keeps the records of the compact list, except for a recommendation that the item
repeats. -/
theorem covers_coalesceStep {acc : NameMap ℕ × List Entry} (h : IsOpen acc) (item : Entry) :
    Covers (item :: acc.2) (coalesceStep acc item).2 := by
  have hpush : Covers (item :: acc.2) (acc.2 ++ [item]) :=
    Covers.of_subset (by intro e he; simpa [or_comm] using he)
  unfold coalesceStep
  split_ifs with hrecommended hrecipe
  · split
    · rename_i previous hprevious
      obtain ⟨old, hold, holdrecommended, hsame⟩ := h item.recipe previous hprevious
      have hlt := (List.getElem?_eq_some_iff.1 hold).1
      have hitem : item ∈ acc.2.set previous item := List.mem_set hlt item
      intro r hr
      obtain rfl | hr := List.mem_cons.1 hr
      · exact .inl hitem
      obtain ⟨j, hj⟩ := List.getElem?_of_mem hr
      by_cases hji : previous = j
      · subst hji
        rw [hold] at hj
        cases hj
        exact .inr ⟨holdrecommended, item, hitem, hrecommended.2, hsame.symm⟩
      · exact .inl (List.mem_of_getElem? (by rw [List.getElem?_set_ne hji, hj]))
    · exact hpush
  · exact hpush
  · exact hpush

theorem coalesce_concat (history : List Entry) (item : Entry) :
    (history ++ [item]).foldl coalesceStep (∅, []) =
      coalesceStep (history.foldl coalesceStep (∅, [])) item := by
  simp

theorem isOpen_coalesce (history : List Entry) :
    IsOpen (history.foldl coalesceStep (∅, [])) := by
  induction history using List.reverseRecOn with
  | nil =>
    intro recipe i h
    cases h
  | append_singleton history item ih =>
    rw [coalesce_concat]
    exact ih.step item

theorem covers_coalesceRecommendations (history : List Entry) :
    Covers history (coalesceRecommendations history) := by
  unfold coalesceRecommendations
  induction history using List.reverseRecOn with
  | nil => exact Covers.of_subset (List.Subset.refl _)
  | append_singleton history item ih =>
    rw [coalesce_concat]
    have hstep := covers_coalesceStep (isOpen_coalesce history) item
    intro r hr
    obtain hr | hr := List.mem_append.1 hr
    · exact (ih.trans fun e he => hstep e (List.mem_cons_of_mem _ he)) r hr
    · obtain rfl := List.mem_singleton.1 hr
      exact hstep r List.mem_cons_self

/-- What coalescing and capping a history keeps. -/
theorem Covers.mem_capHistory (h : Covers history history') (hr : r ∈ history) :
    r ∈ capHistory history' ∨ Lost r history' := by
  by_cases hmem : r ∈ history'
  · exact (mem_capHistory_or_overflow hmem).imp_right .inr
  · exact .inr (.inl ⟨hmem, (h r hr).resolve_left hmem⟩)

/-! ### Operations -/

/-- What a call reads from the clock: for `is_pending_recipe`, for `cooldown_active` and for the
record that it appends. -/
structure Clock where
  pending : ℚ
  cooldown : ℚ
  record : ℚ
  deriving DecidableEq

/-- A call, with what it learns from outside. -/
inductive Operation
  | serviceCheck (active : List String) (decisions : List Entry)
  | dismiss (recipeId : String)
  | execute (recipeId : String) (askpass : Bool) (result : Except String String) (verifies : Bool)

namespace Operation

/-- The state that a call hands to its save, from the state that it loaded. -/
def next (s : GuardianState) (clock : Clock) : Operation → Except String GuardianState
  | serviceCheck active decisions => recordServiceCheck s active decisions clock.record
  | dismiss recipeId => dismissRecommendation s recipeId clock.pending clock.record
  | execute recipeId askpass result verifies => do
      let recipe ← admitRecipe s recipeId askpass clock.pending clock.cooldown
      return recordExecution s recipe result verifies clock.record

/-- The histories of a call, as each of them is before it is cut at the cap. -/
def uncapped (s : GuardianState) (clock : Clock) : Operation → List (List Entry)
  | serviceCheck _ decisions =>
      let full := coalesceRecommendations (decisions.foldl appendHistoryRecord s.history)
      [full, coalesceRecommendations (capHistory full)]
  | dismiss recipeId =>
      [coalesceRecommendations (s.history ++ [dismissalRecord recipeId clock.record])]
  | execute recipeId _ result verifies =>
      match recipes.find? fun recipe => recipe.id == recipeId with
      | none => []
      | some recipe =>
          let full := s.history ++ [executionRecord recipe result verifies clock.record]
          [full, coalesceRecommendations (capHistory full)]

variable {s s' : GuardianState} {clock : Clock} {op : Operation}

theorem mem_saveState (h : r ∈ s.history) :
    r ∈ (saveState s).history ∨ Lost r (coalesceRecommendations s.history) := by
  unfold saveState
  exact (covers_coalesceRecommendations s.history).mem_capHistory h

theorem admitRecipe_eq_ok {recipeId : String} {askpass : Bool} {pendingNow now : ℚ}
    {recipe : Recipe} (h : admitRecipe s recipeId askpass pendingNow now = .ok recipe) :
    recipes.find? (fun recipe => recipe.id == recipeId) = some recipe ∧
      cooldownActive s now recipe = false := by
  unfold admitRecipe at h
  split at h
  · cases h
  · split_ifs at h with _ _ hcooldown
    cases h
    exact ⟨by assumption, Bool.eq_false_iff.2 hcooldown⟩

/-- What a call can hand to its save. -/
inductive Saves (s : GuardianState) (clock : Clock) : Operation → GuardianState → Prop
  | serviceCheck (active : List String) (decisions : List Entry) {s' : GuardianState}
      (hhistory : s'.history = capHistory
        (coalesceRecommendations (decisions.foldl appendHistoryRecord s.history))) :
      Saves s clock (serviceCheck active decisions) s'
  | dismiss (recipeId : String) :
      Saves s clock (dismiss recipeId)
        { s with history := s.history ++ [dismissalRecord recipeId clock.record] }
  | execute {recipeId : String} (askpass : Bool) (result : Except String String) (verifies : Bool)
      {recipe : Recipe} (hfind : recipes.find? (fun recipe => recipe.id == recipeId) = some recipe)
      (hcooldown : cooldownActive s clock.cooldown recipe = false) :
      Saves s clock (execute recipeId askpass result verifies)
        (recordExecution s recipe result verifies clock.record)

theorem saves_of_next (h : op.next s clock = .ok s') : Saves s clock op s' := by
  cases op with
  | serviceCheck active decisions =>
    rw [next, recordServiceCheck] at h
    split at h
    · cases h
    · cases h
      exact .serviceCheck active decisions rfl
  | dismiss recipeId =>
    rw [next, dismissRecommendation] at h
    split_ifs at h
    cases h
    exact .dismiss recipeId
  | execute recipeId askpass result verifies =>
    rw [next] at h
    cases hrecipe : admitRecipe s recipeId askpass clock.pending clock.cooldown with
    | error message =>
      rw [hrecipe] at h
      cases h
    | ok recipe =>
      rw [hrecipe] at h
      cases h
      obtain ⟨hfind, hcooldown⟩ := admitRecipe_eq_ok hrecipe
      exact .execute askpass result verifies hfind hcooldown

/-- What an execution does to the records that it loaded and to the one that it appends. -/
theorem mem_recordExecution {recipeId : String} {recipe : Recipe} (askpass : Bool)
    {result : Except String String} {verifies : Bool}
    (hfind : recipes.find? (fun recipe => recipe.id == recipeId) = some recipe)
    (hr : r ∈ s.history ++ [executionRecord recipe result verifies clock.record]) :
    r ∈ (saveState (recordExecution s recipe result verifies clock.record)).history ∨
      ∃ full ∈ (execute recipeId askpass result verifies).uncapped s clock, Lost r full := by
  obtain hr | hlost := (Covers.of_subset (List.Subset.refl _)).mem_capHistory hr
  · obtain hr | hlost := mem_saveState
      (s := recordExecution s recipe result verifies clock.record) hr
    · exact .inl hr
    · exact .inr ⟨_, by simp [uncapped, hfind, recordExecution], hlost⟩
  · exact .inr ⟨_, by simp [uncapped, hfind], hlost⟩

/-- A call loses no record but through coalescing and the cap. -/
theorem mem_or_lost (h : op.next s clock = .ok s') (hr : r ∈ s.history) :
    r ∈ (saveState s').history ∨ ∃ full ∈ op.uncapped s clock, Lost r full := by
  cases saves_of_next h with
  | serviceCheck active decisions hhistory =>
    have hfull := (covers_foldl_append s.history decisions).trans
      (covers_coalesceRecommendations _)
    obtain hr | hlost := hfull.mem_capHistory hr
    · rw [← hhistory] at hr
      obtain hr | hlost := mem_saveState hr
      · exact .inl hr
      · rw [hhistory] at hlost
        exact .inr ⟨_, by simp [uncapped], hlost⟩
    · exact .inr ⟨_, by simp [uncapped], hlost⟩
  | dismiss recipeId =>
    obtain hr | hlost := mem_saveState (s := { s with
      history := s.history ++ [dismissalRecord recipeId clock.record] }) (List.mem_append_left _ hr)
    · exact .inl hr
    · exact .inr ⟨_, by simp [uncapped], hlost⟩
  | execute askpass result verifies hfind hcooldown =>
    exact mem_recordExecution askpass hfind (List.mem_append_left _ hr)

end Operation

end Kyth.Guardian
