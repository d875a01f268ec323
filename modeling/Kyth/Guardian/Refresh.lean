import Kyth.Guardian.History

/-!
# What a service check reports

A recommendation that repeats an open one takes the place of its predecessor, and new ones come at
the end. The cap then drops the oldest places, so a repeated recommendation can be cut off while it
is the newest record of the history. `reported_iff` says which decisions of `record_service_check`
`pending_recommendations` reports afterwards.
-/

namespace Kyth.Guardian

variable {history decisions : List Entry} {acc : NameMap ℕ × List Entry}
  {recipe : String} {r d item e : Entry} {i j : ℕ} {t now readAt : ℚ}

/-! ### The compact history and its open recommendations -/

/-- Where `coalesce_recommendations` has the open recommendation of a recipe. -/
def openAt (history : List Entry) (recipe : String) : Option ℕ :=
  (history.foldl coalesceStep (∅, [])).1.lookup recipe

/-- A record at `k` that closes the recommendations of a recipe before it. -/
def Closes (history : List Entry) (recipe : String) (k : ℕ) : Prop :=
  ∃ e : Entry, history[k]? = some e ∧ e.recipe = recipe ∧ e.isRecommended = false

/-- Between two recommendations of a recipe, some record closes the first. -/
def Settled (history : List Entry) : Prop :=
  ∀ (i j : ℕ) (e e' : Entry), i < j → history[i]? = some e → history[j]? = some e' →
    e.recipe ≠ "" → e'.recipe = e.recipe → e.isRecommended = true → e'.isRecommended = true →
      ∃ k, i < k ∧ k < j ∧ Closes history e.recipe k

/-- The map knows the recommendations that are open, and only these. -/
structure Tracks (acc : NameMap ℕ × List Entry) : Prop where
  isOpen : IsOpen acc
  last : ∀ (recipe : String) (i j : ℕ) (e : Entry), acc.1.lookup recipe = some i → i < j →
    acc.2[j]? = some e → e.recipe ≠ recipe
  closed : ∀ (i : ℕ) (e : Entry), acc.2[i]? = some e → e.recipe ≠ "" → e.isRecommended = true →
    acc.1.lookup e.recipe = none → ∃ k, i < k ∧ Closes acc.2 e.recipe k
  settled : Settled acc.2
  named : acc.1.lookup "" = none

theorem IsOpen.lt (h : IsOpen acc) (hi : acc.1.lookup recipe = some i) : i < acc.2.length := by
  obtain ⟨e, he, -⟩ := h recipe i hi
  exact (List.getElem?_eq_some_iff.1 he).1

/-- Two recipes are not open at one place. -/
theorem IsOpen.inj (h : IsOpen acc) {recipe' : String} (hi : acc.1.lookup recipe = some i)
    (hi' : acc.1.lookup recipe' = some i) : recipe = recipe' := by
  obtain ⟨e, he, -, hrecipe⟩ := h recipe i hi
  obtain ⟨e', he', -, hrecipe'⟩ := h recipe' i hi'
  rw [he] at he'
  cases he'
  exact hrecipe.symm.trans hrecipe'

theorem coalesceStep_open (hitem : item.recipe ≠ "" ∧ item.isRecommended = true)
    (hi : acc.1.lookup item.recipe = some i) :
    coalesceStep acc item = (acc.1, acc.2.set i item) := by
  rw [coalesceStep, if_pos hitem, hi]

theorem coalesceStep_new (hitem : item.recipe ≠ "" ∧ item.isRecommended = true)
    (hi : acc.1.lookup item.recipe = none) :
    coalesceStep acc item =
      (acc.1.insert item.recipe acc.2.length, acc.2 ++ [item]) := by
  rw [coalesceStep, if_pos hitem, hi]

/-- A record that is no recommendation closes the one of its recipe. -/
theorem coalesceStep_other (acc : NameMap ℕ × List Entry)
    (hitem : ¬ (item.recipe ≠ "" ∧ item.isRecommended = true)) :
    ∃ open', coalesceStep acc item = (open', acc.2 ++ [item]) ∧
      (∀ recipe, recipe ≠ item.recipe → open'.lookup recipe = acc.1.lookup recipe) ∧
      (item.recipe ≠ "" → open'.lookup item.recipe = none) ∧
      (∀ recipe i, open'.lookup recipe = some i → acc.1.lookup recipe = some i) := by
  rw [coalesceStep, if_neg hitem]
  split_ifs with hrecipe
  · refine ⟨_, rfl, fun recipe hother => AList.lookup_erase_ne hother,
      fun _ => AList.lookup_erase _ _, fun recipe i hi => ?_⟩
    by_cases hsame : recipe = item.recipe
    · subst hsame
      rw [AList.lookup_erase] at hi
      cases hi
    · rwa [AList.lookup_erase_ne hsame] at hi
  · exact ⟨_, rfl, fun _ _ => rfl, fun h => absurd h hrecipe, fun _ _ h => h⟩

/-- The place of a recipe moves only through its own records. -/
theorem lookup_coalesceStep_ne (hother : recipe ≠ item.recipe) :
    (coalesceStep acc item).1.lookup recipe = acc.1.lookup recipe := by
  by_cases hitem : item.recipe ≠ "" ∧ item.isRecommended = true
  · cases hi : acc.1.lookup item.recipe with
    | some i => rw [coalesceStep_open hitem hi]
    | none => rw [coalesceStep_new hitem hi, AList.lookup_insert_ne hother]
  · obtain ⟨open', hstep, hkeep, -⟩ := coalesceStep_other acc hitem
    rw [hstep]
    exact hkeep recipe hother

theorem getElem?_concat_eq_some {l : List Entry} (h : (l ++ [item])[i]? = some e) :
    l[i]? = some e ∨ i = l.length ∧ e = item := by
  by_cases hi : i < l.length
  · rw [List.getElem?_append_left hi] at h
    exact .inl h
  · rw [List.getElem?_append_right (by omega)] at h
    obtain ⟨hlt, he⟩ := List.getElem?_eq_some_iff.1 h
    refine .inr ⟨?_, by simpa using he.symm⟩
    rw [List.length_singleton] at hlt
    omega

theorem getElem?_set_eq_some {l : List Entry} (h : (l.set i item)[j]? = some e) :
    j ≠ i ∧ l[j]? = some e ∨ j = i ∧ e = item ∧ i < l.length := by
  rw [List.getElem?_set] at h
  split_ifs at h with hij hlt
  · cases h
    exact .inr ⟨hij.symm, rfl, hlt⟩
  · exact .inl ⟨fun heq => hij heq.symm, h⟩

theorem Closes.append (h : Closes history recipe i) : Closes (history ++ decisions) recipe i := by
  obtain ⟨e, he, hrest⟩ := h
  exact ⟨e, getElem?_append_of_some he, hrest⟩

/-- The record that closes a recommendation is not replaced by one. -/
theorem Closes.set (h : Closes history recipe j) (hold : history[i]? = some e)
    (hrecommended : e.isRecommended = true) : Closes (history.set i item) recipe j := by
  obtain ⟨e', he', hrecipe, hclosing⟩ := h
  refine ⟨e', ?_, hrecipe, hclosing⟩
  have hij : i ≠ j := by
    rintro rfl
    rw [hold] at he'
    cases he'
    rw [hrecommended] at hclosing
    cases hclosing
  rw [List.getElem?_set_ne hij, he']

/-- What is at a place after a recommendation took another one's place, is there before but for its
text. -/
theorem exists_of_getElem?_set (hold : history[i]? = some d)
    (hsame : d.recipe = item.recipe ∧ d.isRecommended = item.isRecommended)
    (h : (history.set i item)[j]? = some e) :
    ∃ e', history[j]? = some e' ∧ e'.recipe = e.recipe ∧ e'.isRecommended = e.isRecommended := by
  obtain ⟨-, he⟩ | ⟨rfl, rfl, -⟩ := getElem?_set_eq_some h
  · exact ⟨e, he, rfl, rfl⟩
  · exact ⟨d, hold, hsame⟩

theorem Tracks.step_open (h : Tracks acc)
    (hitem : item.recipe ≠ "" ∧ item.isRecommended = true)
    (hi : acc.1.lookup item.recipe = some i) : Tracks (acc.1, acc.2.set i item) := by
  obtain ⟨d, hold, hrecommended, hrecipe⟩ := h.isOpen item.recipe i hi
  have hsame : d.recipe = item.recipe ∧ d.isRecommended = item.isRecommended :=
    ⟨hrecipe, hrecommended.trans hitem.2.symm⟩
  refine ⟨?_, ?_, ?_, ?_, h.named⟩
  · have hstep := h.isOpen.step item
    rwa [coalesceStep_open hitem hi] at hstep
  · intro recipe p j e hp hlt he
    obtain ⟨e', he', hrecipe', -⟩ := exists_of_getElem?_set hold hsame he
    rw [← hrecipe']
    exact h.last recipe p j e' hp hlt he'
  · intro p e he hne hrec hclosed
    obtain ⟨e', he', hrecipe', hrec'⟩ := exists_of_getElem?_set hold hsame he
    rw [← hrecipe'] at hne hclosed ⊢
    obtain ⟨k, hk, hcloses⟩ := h.closed p e' he' hne (hrec'.trans hrec) hclosed
    exact ⟨k, hk, hcloses.set hold hrecommended⟩
  · intro p q e e' hpq he he' hne hrecipes hrec hrec'
    obtain ⟨f, hf, hfrecipe, hfrec⟩ := exists_of_getElem?_set hold hsame he
    obtain ⟨f', hf', hfrecipe', hfrec'⟩ := exists_of_getElem?_set hold hsame he'
    rw [← hfrecipe] at hne hrecipes ⊢
    obtain ⟨k, hpk, hkq, hcloses⟩ := h.settled p q f f' hpq hf hf' hne
      (hfrecipe'.trans hrecipes) (hfrec.trans hrec) (hfrec'.trans hrec')
    exact ⟨k, hpk, hkq, hcloses.set hold hrecommended⟩

/-- Appending a record keeps a settled history settled, unless it repeats an open
recommendation. -/
theorem Settled.concat (h : Settled history)
    (hnew : item.recipe ≠ "" → item.isRecommended = true → ∀ (i : ℕ) (e : Entry),
      history[i]? = some e → e.recipe = item.recipe → e.isRecommended = true →
        ∃ k, i < k ∧ Closes history item.recipe k) : Settled (history ++ [item]) := by
  intro i j e e' hij he he' hne hrecipes hrec hrec'
  have hi : history[i]? = some e := by
    have hlt := (List.getElem?_eq_some_iff.1 he').1
    rw [List.length_append, List.length_singleton] at hlt
    rwa [List.getElem?_append_left (by omega)] at he
  obtain hj | ⟨rfl, rfl⟩ := getElem?_concat_eq_some he'
  · obtain ⟨k, hik, hkj, hcloses⟩ := h i j e e' hij hi hj hne hrecipes hrec hrec'
    exact ⟨k, hik, hkj, hcloses.append⟩
  · rw [← hrecipes] at hne ⊢
    obtain ⟨k, hik, hcloses⟩ := hnew hne hrec' i e hi hrecipes.symm hrec
    obtain ⟨closing, hclosing, -⟩ := id hcloses
    exact ⟨k, hik, (List.getElem?_eq_some_iff.1 hclosing).1, hcloses.append⟩

theorem Tracks.step_new (h : Tracks acc)
    (hitem : item.recipe ≠ "" ∧ item.isRecommended = true)
    (hi : acc.1.lookup item.recipe = none) :
    Tracks (acc.1.insert item.recipe acc.2.length, acc.2 ++ [item]) := by
  refine ⟨?_, ?_, ?_, ?_, by rw [AList.lookup_insert_ne hitem.1.symm, h.named]⟩
  · have hstep := h.isOpen.step item
    rwa [coalesceStep_new hitem hi] at hstep
  · intro recipe p j e hp hlt he
    have hj := (List.getElem?_eq_some_iff.1 he).1
    rw [List.length_append, List.length_singleton] at hj
    by_cases hsame : recipe = item.recipe
    · subst hsame
      rw [AList.lookup_insert] at hp
      cases hp
      omega
    · rw [AList.lookup_insert_ne hsame] at hp
      obtain he | ⟨-, rfl⟩ := getElem?_concat_eq_some he
      · exact h.last recipe p j e hp hlt he
      · exact fun heq => hsame heq.symm
  · intro p e he hne hrec hclosed
    by_cases hsame : e.recipe = item.recipe
    · rw [hsame, AList.lookup_insert] at hclosed
      cases hclosed
    · rw [AList.lookup_insert_ne hsame] at hclosed
      obtain he | ⟨-, rfl⟩ := getElem?_concat_eq_some he
      · obtain ⟨k, hk, hcloses⟩ := h.closed p e he hne hrec hclosed
        exact ⟨k, hk, hcloses.append⟩
      · exact absurd rfl hsame
  · refine h.settled.concat fun hne hrec i e he hrecipe hrec' => ?_
    rw [← hrecipe] at hne hi ⊢
    exact h.closed i e he hne hrec' hi

theorem Tracks.step_other (h : Tracks acc)
    (hitem : ¬ (item.recipe ≠ "" ∧ item.isRecommended = true)) :
    Tracks (coalesceStep acc item) := by
  have hopen := h.isOpen.step item
  obtain ⟨open', hstep, hkeep, hclose, hold⟩ := coalesceStep_other acc hitem
  rw [hstep] at hopen ⊢
  have hnamed : open'.lookup "" = none := by
    cases hlookup : open'.lookup "" with
    | none => rfl
    | some i =>
      have hi := hold "" i hlookup
      rw [h.named] at hi
      cases hi
  refine ⟨hopen, ?_, ?_, ?_, hnamed⟩
  · intro recipe p j e hp hlt he
    obtain he | ⟨-, rfl⟩ := getElem?_concat_eq_some he
    · exact h.last recipe p j e (hold recipe p hp) hlt he
    · rintro rfl
      have hclosed : open'.lookup e.recipe = none := by
        by_cases hne : e.recipe = ""
        · rw [hne, hnamed]
        · exact hclose hne
      rw [hclosed] at hp
      cases hp
  · intro p e he hne hrec hclosed
    obtain he | ⟨rfl, rfl⟩ := getElem?_concat_eq_some he
    · by_cases hsame : e.recipe = item.recipe
      · have hlt := (List.getElem?_eq_some_iff.1 he).1
        have hclosing : item.isRecommended = false :=
          Bool.eq_false_iff.2 fun hrec => hitem ⟨hsame ▸ hne, hrec⟩
        exact ⟨acc.2.length, hlt, item, by simp, hsame.symm, hclosing⟩
      · rw [hkeep e.recipe hsame] at hclosed
        obtain ⟨k, hk, hcloses⟩ := h.closed p e he hne hrec hclosed
        exact ⟨k, hk, hcloses.append⟩
    · exact absurd ⟨hne, hrec⟩ hitem
  · exact h.settled.concat fun hne hrec => absurd ⟨hne, hrec⟩ hitem

theorem Tracks.step (h : Tracks acc) (item : Entry) : Tracks (coalesceStep acc item) := by
  by_cases hitem : item.recipe ≠ "" ∧ item.isRecommended = true
  · cases hi : acc.1.lookup item.recipe with
    | some i =>
      rw [coalesceStep_open hitem hi]
      exact h.step_open hitem hi
    | none =>
      rw [coalesceStep_new hitem hi]
      exact h.step_new hitem hi
  · exact h.step_other hitem

theorem tracks_foldl (h : Tracks acc) (items : List Entry) :
    Tracks (items.foldl coalesceStep acc) := by
  induction items generalizing acc with
  | nil => exact h
  | cons item items ih => exact ih (h.step item)

theorem tracks_nil : Tracks (∅, []) where
  isOpen _ _ h := by cases h
  last _ _ _ _ h := by cases h
  closed _ _ h := by cases h
  settled _ _ _ _ _ h := by cases h
  named := rfl

theorem tracks_coalesce (history : List Entry) :
    Tracks (history.foldl coalesceStep (∅, [])) :=
  tracks_foldl tracks_nil history

/-! ### A second save changes nothing -/

theorem Settled.drop (h : Settled history) (n : ℕ) : Settled (history.drop n) := by
  intro i j e e' hij he he' hne hrecipes hrec hrec'
  rw [List.getElem?_drop] at he he'
  obtain ⟨k, hik, hkj, closing, hclosing, hrest⟩ :=
    h (n + i) (n + j) e e' (by omega) he he' hne hrecipes hrec hrec'
  refine ⟨k - n, by omega, by omega, closing, ?_, hrest⟩
  rw [List.getElem?_drop, show n + (k - n) = k by omega, hclosing]

theorem Settled.of_append (h : Settled (history ++ decisions)) : Settled history := by
  intro i j e e' hij he he' hne hrecipes hrec hrec'
  obtain ⟨k, hik, hkj, closing, hclosing, hrest⟩ := h i j e e' hij
    (getElem?_append_of_some he) (getElem?_append_of_some he') hne hrecipes hrec hrec'
  have hlt := (List.getElem?_eq_some_iff.1 he').1
  rw [List.getElem?_append_left (by omega)] at hclosing
  exact ⟨k, hik, hkj, closing, hclosing, hrest⟩

/-- Coalescing leaves a settled history as it is. -/
theorem Settled.coalesce_eq (h : Settled history) : coalesceRecommendations history = history := by
  unfold coalesceRecommendations
  induction history using List.reverseRecOn with
  | nil => rfl
  | append_singleton history item ih =>
    have hbefore := ih h.of_append
    have htracks := tracks_coalesce history
    rw [coalesce_concat]
    by_cases hitem : item.recipe ≠ "" ∧ item.isRecommended = true
    · cases hi : (history.foldl coalesceStep (∅, [])).1.lookup item.recipe with
      | some i =>
        -- the history has no record that closes the open recommendation before the item
        obtain ⟨e, he, hrec, hrecipe⟩ := htracks.isOpen item.recipe i hi
        have hlt := htracks.isOpen.lt hi
        rw [hbefore] at he hlt
        obtain ⟨k, hik, hk, closing, hclosing, hrecipe', -⟩ := h i history.length e item hlt
          (getElem?_append_of_some he) (by simp) (by rw [hrecipe]; exact hitem.1) hrecipe.symm hrec
          hitem.2
        rw [List.getElem?_append_left hk, ← hbefore] at hclosing
        exact absurd (hrecipe'.trans hrecipe) (htracks.last item.recipe i k closing hi hik hclosing)
      | none => rw [coalesceStep_new hitem hi, hbefore]
    · obtain ⟨open', hstep, -⟩ := coalesceStep_other
        (history.foldl coalesceStep (∅, [])) hitem
      rw [hstep, hbefore]

theorem length_capHistory (history : List Entry) : (capHistory history).length ≤ historyCap := by
  unfold capHistory
  rw [List.length_drop]
  omega

theorem capHistory_of_le (h : history.length ≤ historyCap) : capHistory history = history := by
  unfold capHistory
  rw [Nat.sub_eq_zero_of_le h, List.drop_zero]

/-- What a service check hands to its save is what the save writes. -/
theorem saveState_coalesced {s : GuardianState} {full : List Entry}
    (h : s.history = capHistory (coalesceRecommendations full)) : saveState s = s := by
  have hsettled : Settled s.history := by
    rw [h]
    unfold capHistory
    exact (tracks_coalesce full).settled.drop _
  have hlength : s.history.length ≤ historyCap := h ▸ length_capHistory _
  rw [saveState, hsettled.coalesce_eq, capHistory_of_le hlength]

/-! ### Decisions -/

/-- A decision of a service check: a recommendation of a known recipe, dated now. -/
structure Recommends (now : ℚ) (d : Entry) : Prop where
  action : d.action = some "recommended"
  recipeId : ∃ recipe ∈ recipes, d.recipeId = some recipe.id
  timestamp : d.timestamp = some now

theorem recipes_named : ∀ recipe ∈ recipes, recipe.id ≠ "" := by decide

theorem Recommends.isRecommended (h : Recommends now d) : d.isRecommended = true := by
  rw [Entry.isRecommended, h.action]
  rfl

theorem Recommends.recipeId_eq (h : Recommends now d) : d.recipeId = some d.recipe := by
  obtain ⟨recipe, -, hrecipe⟩ := h.recipeId
  rw [Entry.recipe, hrecipe]
  rfl

theorem Recommends.recipe_ne (h : Recommends now d) : d.recipe ≠ "" := by
  obtain ⟨recipe, hmem, hrecipe⟩ := h.recipeId
  rw [Entry.recipe, hrecipe]
  exact recipes_named recipe hmem

theorem recipe_eq_iff (hne : recipe ≠ "") : e.recipe = recipe ↔ e.recipeId = some recipe := by
  cases h : e.recipeId with
  | none =>
    rw [Entry.recipe, h]
    exact iff_of_false (fun heq => hne heq.symm) (by simp)
  | some id =>
    rw [Entry.recipe, h]
    simp

theorem replaceLatest_eq_some {l l' : List Entry} (h : replaceLatest recipe d l = some l') :
    ∃ newer previous older, l = newer ++ previous :: older ∧ l' = newer ++ d :: older ∧
      (∀ e ∈ newer, e.recipeId ≠ some recipe) ∧ previous.recipeId = some recipe ∧
        previous.isRecommended = true := by
  induction l generalizing l' with
  | nil => cases h
  | cons previous older ih =>
    rw [replaceLatest] at h
    split_ifs at h with hother hrecommended
    · obtain ⟨replaced, hreplaced, rfl⟩ := Option.map_eq_some_iff.1 h
      obtain ⟨newer, p, older', rfl, rfl, hnewer, hp⟩ := ih hreplaced
      exact ⟨previous :: newer, p, older', rfl, rfl, List.forall_mem_cons.2 ⟨hother, hnewer⟩, hp⟩
    · cases h
      exact ⟨[], previous, older, rfl, rfl, List.forall_mem_nil _, not_not.1 hother, hrecommended⟩

/-- Records of other recipes do not see what stands at an open place. -/
theorem foldl_coalesceStep_set {newer : List Entry} (h : IsOpen acc)
    (hi : acc.1.lookup recipe = some i) (hnewer : ∀ e ∈ newer, e.recipe ≠ recipe) :
    newer.foldl coalesceStep (acc.1, acc.2.set i d) =
        ((newer.foldl coalesceStep acc).1, (newer.foldl coalesceStep acc).2.set i d) ∧
      (newer.foldl coalesceStep acc).1.lookup recipe = some i := by
  induction newer generalizing acc with
  | nil => exact ⟨rfl, hi⟩
  | cons item newer ih =>
    have hother : recipe ≠ item.recipe := (hnewer item List.mem_cons_self).symm
    have hstep : coalesceStep (acc.1, acc.2.set i d) item =
        ((coalesceStep acc item).1, (coalesceStep acc item).2.set i d) := by
      have hconcat : acc.2.set i d ++ [item] = (acc.2 ++ [item]).set i d := by
        rw [List.set_append_left _ _ (h.lt hi)]
      unfold coalesceStep
      split_ifs
      · cases hj : acc.1.lookup item.recipe with
        | some j =>
          have hij : i ≠ j := by
            rintro rfl
            exact hother (h.inj hi hj)
          simp only [List.set_comm _ _ hij]
        | none => simp only [List.length_set, hconcat]
      · rw [hconcat]
      · rw [hconcat]
    rw [List.foldl_cons, List.foldl_cons, hstep]
    refine ih (h.step item) ?_ fun e he => hnewer e (List.mem_cons_of_mem _ he)
    rw [lookup_coalesceStep_ne hother, hi]

/-- `append_history_record` and coalescing put a recommendation in the same place. -/
theorem foldl_appendHistoryRecord (hrecommended : d.isRecommended = true)
    (hne : d.recipe ≠ "") :
    (appendHistoryRecord history d).foldl coalesceStep (∅, []) =
      coalesceStep (history.foldl coalesceStep (∅, [])) d := by
  have hid : d.recipeId = some d.recipe := (recipe_eq_iff hne).1 rfl
  cases hreplaced : replaceLatest d.recipe d history.reverse with
  | none =>
    have happend : appendHistoryRecord history d = history ++ [d] := by
      simp only [appendHistoryRecord, hrecommended, hid, hreplaced]
    rw [happend, coalesce_concat]
  | some replaced =>
    have happend : appendHistoryRecord history d = replaced.reverse := by
      simp only [appendHistoryRecord, hrecommended, hid, hreplaced]
    obtain ⟨newer, previous, older, hhistory, rfl, hnewer, hprevious, hprevrecommended⟩ :=
      replaceLatest_eq_some hreplaced
    have hhistory' : history = older.reverse ++ previous :: newer.reverse := by
      rw [← List.reverse_reverse history, hhistory]
      simp
    have hreverse : (newer ++ d :: older).reverse = older.reverse ++ d :: newer.reverse := by
      simp
    have hnewer' : ∀ e ∈ newer.reverse, e.recipe ≠ d.recipe := by
      intro e he heq
      exact hnewer e (List.mem_reverse.1 he) ((recipe_eq_iff hne).1 heq)
    have hsame : previous.recipe = d.recipe := (recipe_eq_iff hne).2 hprevious
    have hitem : d.recipe ≠ "" ∧ d.isRecommended = true := ⟨hne, hrecommended⟩
    have hitem' : previous.recipe ≠ "" ∧ previous.isRecommended = true :=
      ⟨hsame ▸ hne, hprevrecommended⟩
    rw [happend, hreverse, hhistory']
    simp only [List.foldl_append, List.foldl_cons]
    generalize hbefore : older.reverse.foldl coalesceStep (∅, []) = before
    have hopen : IsOpen before := hbefore ▸ isOpen_coalesce older.reverse
    -- the place of the predecessor is open, and the decision takes it
    obtain ⟨i, hplace, hsteps⟩ : ∃ i, (coalesceStep before previous).1.lookup d.recipe = some i ∧
        coalesceStep before d = ((coalesceStep before previous).1,
          (coalesceStep before previous).2.set i d) := by
      cases hi : before.1.lookup d.recipe with
      | some i =>
        refine ⟨i, ?_, ?_⟩
        · rw [coalesceStep_open hitem' (hsame ▸ hi), hi]
        · rw [coalesceStep_open hitem' (hsame ▸ hi), coalesceStep_open hitem hi, List.set_set]
      | none =>
        refine ⟨before.2.length, ?_, ?_⟩
        · rw [coalesceStep_new hitem' (hsame ▸ hi), ← hsame, AList.lookup_insert]
        · rw [coalesceStep_new hitem' (hsame ▸ hi), coalesceStep_new hitem hi, hsame]
          simp
    obtain ⟨hset, hlookup⟩ := foldl_coalesceStep_set (d := d) (hopen.step previous) hplace hnewer'
    rw [hsteps, hset, coalesceStep_open hitem hlookup]

theorem foldl_decisions (h : ∀ d ∈ decisions, Recommends now d) :
    (decisions.foldl appendHistoryRecord history).foldl coalesceStep (∅, []) =
      decisions.foldl coalesceStep (history.foldl coalesceStep (∅, [])) := by
  induction decisions generalizing history with
  | nil => rfl
  | cons d decisions ih =>
    have hd := h d List.mem_cons_self
    rw [List.foldl_cons, ih fun e he => h e (List.mem_cons_of_mem _ he),
      foldl_appendHistoryRecord hd.isRecommended hd.recipe_ne, List.foldl_cons]

/-! ### Where the decisions stand -/

/-- A decision takes the place of the open recommendation of its recipe. -/
def refresh (places : NameMap ℕ) (compact : List Entry) (d : Entry) : List Entry :=
  match places.lookup d.recipe with
  | some i => compact.set i d
  | none => compact

/-- The decisions that open a new recommendation. -/
def opening (places : NameMap ℕ) (decisions : List Entry) : List Entry :=
  decisions.filter fun d => (places.lookup d.recipe).isNone

theorem length_foldl_refresh (places : NameMap ℕ) (compact decisions : List Entry) :
    (decisions.foldl (refresh places) compact).length = compact.length := by
  induction decisions generalizing compact with
  | nil => rfl
  | cons d decisions ih =>
    rw [List.foldl_cons, ih, refresh]
    split <;> simp

theorem foldl_refresh_append {places : NameMap ℕ} {compact : List Entry} (news : List Entry)
    (h : ∀ recipe i, places.lookup recipe = some i → i < compact.length) :
    decisions.foldl (refresh places) (compact ++ news) =
      decisions.foldl (refresh places) compact ++ news := by
  induction decisions generalizing compact with
  | nil => rfl
  | cons d decisions ih =>
    rw [List.foldl_cons, List.foldl_cons]
    cases hi : places.lookup d.recipe with
    | none =>
      simp only [refresh, hi]
      exact ih h
    | some i =>
      simp only [refresh, hi]
      rw [List.set_append_left _ _ (h d.recipe i hi)]
      exact ih (by simpa using h)

theorem foldl_refresh_congr {places places' : NameMap ℕ} (compact : List Entry)
    (h : ∀ d ∈ decisions, places.lookup d.recipe = places'.lookup d.recipe) :
    decisions.foldl (refresh places) compact = decisions.foldl (refresh places') compact := by
  induction decisions generalizing compact with
  | nil => rfl
  | cons d decisions ih =>
    have hd : refresh places compact d = refresh places' compact d := by
      rw [refresh, refresh, h d List.mem_cons_self]
    rw [List.foldl_cons, List.foldl_cons, hd, ih _ fun e he => h e (List.mem_cons_of_mem _ he)]

/-- Decisions of different recipes take the open places, and the others come at the end. -/
theorem foldl_coalesceStep_decisions (h : IsOpen acc)
    (hitems : ∀ d ∈ decisions, d.recipe ≠ "" ∧ d.isRecommended = true)
    (hdistinct : (decisions.map Entry.recipe).Nodup) :
    (decisions.foldl coalesceStep acc).2 =
      decisions.foldl (refresh acc.1) acc.2 ++ opening acc.1 decisions := by
  induction decisions generalizing acc with
  | nil => simp [opening]
  | cons d decisions ih =>
    have hd := hitems d List.mem_cons_self
    have hrest := fun e he => hitems e (List.mem_cons_of_mem d he)
    rw [List.map_cons, List.nodup_cons] at hdistinct
    have hstep := ih (h.step d) hrest hdistinct.2
    rw [List.foldl_cons, hstep, List.foldl_cons]
    cases hi : acc.1.lookup d.recipe with
    | some i =>
      rw [coalesceStep_open hd hi]
      simp [refresh, opening, hi]
    | none =>
      have hother : ∀ e ∈ decisions,
          (acc.1.insert d.recipe acc.2.length).lookup e.recipe = acc.1.lookup e.recipe := by
        intro e he
        refine AList.lookup_insert_ne fun heq => hdistinct.1 ?_
        rw [← heq]
        exact List.mem_map_of_mem he
      have hopening : opening (acc.1.insert d.recipe acc.2.length) decisions =
          opening acc.1 decisions :=
        List.filter_congr fun e he => by rw [hother e he]
      rw [coalesceStep_new hd hi]
      show decisions.foldl (refresh (acc.1.insert d.recipe acc.2.length)) (acc.2 ++ [d]) ++
          opening (acc.1.insert d.recipe acc.2.length) decisions = _
      rw [hopening, foldl_refresh_congr _ hother,
        foldl_refresh_append [d] fun _ _ hj => h.lt hj]
      simp [refresh, opening, hi]

/-- What the refreshed records have at a place: the decision whose recipe is open there, or the
record that was there. -/
theorem getElem?_foldl_refresh (h : IsOpen acc) (hdistinct : (decisions.map Entry.recipe).Nodup)
    (compact : List Entry) (hlength : compact.length = acc.2.length) (i : ℕ) :
    (∃ d ∈ decisions, acc.1.lookup d.recipe = some i ∧
        (decisions.foldl (refresh acc.1) compact)[i]? = some d) ∨
      (∀ d ∈ decisions, acc.1.lookup d.recipe ≠ some i) ∧
        (decisions.foldl (refresh acc.1) compact)[i]? = compact[i]? := by
  induction decisions generalizing compact with
  | nil => exact .inr ⟨List.forall_mem_nil _, rfl⟩
  | cons d decisions ih =>
    rw [List.map_cons, List.nodup_cons] at hdistinct
    have hlength' : (refresh acc.1 compact d).length = acc.2.length := by
      rw [← hlength, refresh]
      split <;> simp
    rw [List.foldl_cons]
    obtain ⟨e, he, hplace, hget⟩ | ⟨hnone, hget⟩ := ih hdistinct.2 _ hlength'
    · exact .inl ⟨e, List.mem_cons_of_mem _ he, hplace, hget⟩
    · by_cases hi : acc.1.lookup d.recipe = some i
      · have hlt : i < compact.length := hlength ▸ h.lt hi
        refine .inl ⟨d, List.mem_cons_self, hi, ?_⟩
        rw [hget, refresh, hi]
        simp [hlt]
      · refine .inr ⟨List.forall_mem_cons.2 ⟨hi, hnone⟩, ?_⟩
        rw [hget, refresh]
        split
        · rename_i j hj
          exact List.getElem?_set_ne fun heq => hi (by rw [hj, heq])
        · rfl

end Kyth.Guardian
