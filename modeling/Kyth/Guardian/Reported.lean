import Kyth.Guardian.Refresh

/-!
# Which decisions are reported

`pending_recommendations` takes the latest record of each recipe: the one with the latest date, and
among records of one date the last one. `reported_iff` says when it reports all decisions of a
service check: none of them is cut off in the place of its predecessor, and no record that is dated
after the check stands in their way.
-/

namespace Kyth.Guardian

variable {history decisions : List Entry} {recipe : String} {d e e' item : Entry} {i j : ℕ}
  {t t' now readAt : ℚ}

/-! ### The latest record of a recipe -/

/-- A record of the recipe that `pending_recommendations` looks at. -/
structure Dated (now : ℚ) (history : List Entry) (recipe : String) (i : ℕ) (t : ℚ)
    (e : Entry) : Prop where
  record : history[i]? = some e
  recipeId : e.recipeId = some recipe
  timestamp : e.timestamp = some t
  recent : now - t ≤ notifyThrottle

/-- The record at `j` comes before the one at `i`, which is dated `t`. -/
def Precedes (t' : ℚ) (j : ℕ) (t : ℚ) (i : ℕ) : Prop := t' < t ∨ t' = t ∧ j ≤ i

/-- What the loop has found for a recipe. -/
def IsLatest (now : ℚ) (history : List Entry) (recipe : String) : Option (ℚ × Entry) → Prop
  | some (t, e) => ∃ i, Dated now history recipe i t e ∧
      ∀ j t' e', Dated now history recipe j t' e' → Precedes t' j t i
  | none => ∀ i t e, ¬ Dated now history recipe i t e

theorem Dated.append (h : Dated now history recipe i t e) :
    Dated now (history ++ decisions) recipe i t e :=
  ⟨getElem?_append_of_some h.record, h.recipeId, h.timestamp, h.recent⟩

theorem Dated.concat (h : Dated now (history ++ [item]) recipe i t e) :
    Dated now history recipe i t e ∨ i = history.length ∧ e = item := by
  obtain ⟨hrecord, hid, hdate, hrecent⟩ := h
  obtain hold | hnew := getElem?_concat_eq_some hrecord
  · exact .inl ⟨hold, hid, hdate, hrecent⟩
  · exact .inr hnew

/-- A record that is not looked at changes nothing. -/
theorem IsLatest.skip {found : Option (ℚ × Entry)} (h : IsLatest now history recipe found)
    (hskip : ∀ t, ¬ (item.recipeId = some recipe ∧ item.timestamp = some t ∧
      now - t ≤ notifyThrottle)) : IsLatest now (history ++ [item]) recipe found := by
  have hback : ∀ i t e, Dated now (history ++ [item]) recipe i t e →
      Dated now history recipe i t e := by
    intro i t e hdated
    obtain hold | ⟨rfl, rfl⟩ := hdated.concat
    · exact hold
    · exact absurd ⟨hdated.recipeId, hdated.timestamp, hdated.recent⟩ (hskip t)
  cases found with
  | none => exact fun i t e hdated => h i t e (hback i t e hdated)
  | some latest =>
    obtain ⟨i, hdated, hall⟩ := h
    exact ⟨i, hdated.append, fun j t' e' hj => hall j t' e' (hback j t' e' hj)⟩

/-- A record that is looked at becomes the latest one, unless there is one with a later date. -/
theorem IsLatest.take {found : Option (ℚ × Entry)} (h : IsLatest now history recipe found)
    (hitem : item.recipeId = some recipe ∧ item.timestamp = some t ∧ now - t ≤ notifyThrottle)
    (hdates : ∀ latest ∈ found, latest.1 ≤ t) :
    IsLatest now (history ++ [item]) recipe (some (t, item)) := by
  have hdated : Dated now (history ++ [item]) recipe history.length t item :=
    ⟨by simp, hitem.1, hitem.2.1, hitem.2.2⟩
  refine ⟨history.length, hdated, fun j t' e' hj => ?_⟩
  obtain hold | ⟨rfl, rfl⟩ := hj.concat
  · have hlt := (List.getElem?_eq_some_iff.1 hold.record).1
    cases found with
    | none => exact absurd hold (h j t' e')
    | some latest =>
      obtain ⟨i, -, hall⟩ := h
      have hle : t' ≤ latest.1 := by
        obtain hless | ⟨heq, -⟩ := hall j t' e' hold
        · exact hless.le
        · exact heq.le
      have ht : t' ≤ t := hle.trans (hdates latest rfl)
      obtain hless | heq := ht.lt_or_eq
      · exact .inl hless
      · exact .inr ⟨heq, by omega⟩
  · have heq := hj.timestamp
    rw [hitem.2.1] at heq
    cases heq
    exact .inr ⟨rfl, le_refl _⟩

theorem IsLatest.keep {latest : ℚ × Entry} (h : IsLatest now history recipe (some latest))
    (hdate : item.timestamp = some t) (hlater : t < latest.1) :
    IsLatest now (history ++ [item]) recipe (some latest) := by
  obtain ⟨i, hdated, hall⟩ := h
  refine ⟨i, hdated.append, fun j t' e' hj => ?_⟩
  obtain hold | ⟨rfl, rfl⟩ := hj.concat
  · exact hall j t' e' hold
  · have heq := hj.timestamp
    rw [hdate] at heq
    cases heq
    exact .inl hlater

/-- One turn of the loop of `pending_recommendations`. -/
theorem isLatest_step {latest : NameMap (ℚ × Entry)}
    (h : IsLatest now history recipe (latest.lookup recipe)) (item : Entry) :
    IsLatest now (history ++ [item]) recipe ((latestStep now latest item).lookup recipe) := by
  cases hid : item.recipeId with
  | none =>
    have hstep : latestStep now latest item = latest := by rw [latestStep, hid]
    rw [hstep]
    exact h.skip fun t hitem => by simp [hid] at hitem
  | some id =>
    cases hdate : item.timestamp with
    | none =>
      have hstep : latestStep now latest item = latest := by rw [latestStep, hid, hdate]
      rw [hstep]
      exact h.skip fun t hitem => by simp [hdate] at hitem
    | some t =>
      by_cases hold : now - t > notifyThrottle
      · have hstep : latestStep now latest item = latest := by
          simp only [latestStep, hid, hdate, if_pos hold]
        rw [hstep]
        refine h.skip fun t' hitem => ?_
        rw [hdate] at hitem
        obtain ⟨-, heq, hrecent⟩ := hitem
        cases heq
        exact absurd hold (not_lt.2 hrecent)
      by_cases hsame : id = recipe
      · subst hsame
        have hitem : item.recipeId = some id ∧ item.timestamp = some t ∧
            now - t ≤ notifyThrottle := ⟨hid, hdate, not_lt.1 hold⟩
        cases hfound : latest.lookup id with
        | none =>
          rw [hfound] at h
          have hstep : latestStep now latest item = latest.insert id (t, item) := by
            simp only [latestStep, hid, hdate, if_neg hold, hfound]
          rw [hstep, AList.lookup_insert]
          exact h.take hitem (by simp)
        | some previous =>
          rw [hfound] at h
          by_cases hle : previous.1 ≤ t
          · have hstep : latestStep now latest item = latest.insert id (t, item) := by
              simp only [latestStep, hid, hdate, if_neg hold, hfound, if_pos hle]
            rw [hstep, AList.lookup_insert]
            exact h.take hitem (by simpa using hle)
          · have hstep : latestStep now latest item = latest := by
              simp only [latestStep, hid, hdate, if_neg hold, hfound, if_neg hle]
            rw [hstep, hfound]
            exact h.keep hdate (not_le.1 hle)
      · have hstep : (latestStep now latest item).lookup recipe = latest.lookup recipe := by
          have hne : recipe ≠ id := fun heq => hsame heq.symm
          simp only [latestStep, hid, hdate, if_neg hold]
          split
          · split_ifs
            · exact AList.lookup_insert_ne hne
            · rfl
          · exact AList.lookup_insert_ne hne
        rw [hstep]
        exact h.skip fun t' hitem => hsame (by simpa [hid] using hitem.1)

theorem isLatest_lookup (now : ℚ) (history : List Entry) (recipe : String) :
    IsLatest now history recipe ((history.foldl (latestStep now) ∅).lookup recipe) := by
  induction history using List.reverseRecOn with
  | nil =>
    intro i t e h
    cases h.record
  | append_singleton history item ih =>
    rw [List.foldl_append, List.foldl_cons, List.foldl_nil]
    exact isLatest_step ih item

/-- A recipe has one latest record. -/
theorem Dated.latest_unique (h : Dated now history recipe i t e)
    (hall : ∀ j t' e', Dated now history recipe j t' e' → Precedes t' j t i)
    (h' : Dated now history recipe j t' e')
    (hall' : ∀ k t e, Dated now history recipe k t e → Precedes t k t' j) :
    t = t' ∧ i = j ∧ e = e' := by
  have hsame : t = t' ∧ i = j := by
    obtain hlt | ⟨heq, hle⟩ := hall' i t e h <;> obtain hlt' | ⟨heq', hle'⟩ := hall j t' e' h'
    · exact absurd (hlt.trans hlt') (lt_irrefl _)
    · exact absurd hlt heq'.not_gt
    · exact absurd hlt' heq.not_gt
    · exact ⟨heq, by omega⟩
  refine ⟨hsame.1, hsame.2, ?_⟩
  have he := h.record
  rw [hsame.2, h'.record] at he
  exact (Option.some.inj he).symm

theorem Dated.exists_latest (h : Dated now history recipe i t e) :
    ∃ j t' e', Dated now history recipe j t' e' ∧
      ∀ k t e, Dated now history recipe k t e → Precedes t k t' j := by
  have hlatest := isLatest_lookup now history recipe
  cases hlookup : (history.foldl (latestStep now) ∅).lookup recipe with
  | none =>
    rw [hlookup] at hlatest
    exact absurd h (hlatest i t e)
  | some found =>
    rw [hlookup] at hlatest
    obtain ⟨j, hdated, hall⟩ := hlatest
    exact ⟨j, _, _, hdated, hall⟩

/-- The report has the latest record of each recipe, when it is a recommendation. -/
theorem mem_pendingRecommendations {s : GuardianState} {detail : String} :
    (recipe, detail) ∈ pendingRecommendations s now ↔
      ∃ i t e, Dated now s.history recipe i t e ∧
        (∀ j t' e', Dated now s.history recipe j t' e' → Precedes t' j t i) ∧
          e.isRecommended = true ∧ e.detail.getD "" = detail := by
  have hlatest := isLatest_lookup now s.history
  rw [pendingRecommendations]
  generalize s.history.foldl (latestStep now) ∅ = latest at hlatest
  constructor
  · intro h
    obtain ⟨⟨id, t, e⟩, hmem, heq⟩ := List.mem_map.1 h
    obtain ⟨hentry, hrecommended⟩ := List.mem_filter.1 hmem
    have hlookup : latest.lookup id = some (t, e) := AList.mem_lookup_iff.2 hentry
    have hid := hlatest id
    rw [hlookup] at hid
    obtain ⟨i, hdated, hall⟩ := hid
    have hrecipe : e.recipe = id := by
      rw [Entry.recipe, hdated.recipeId]
      rfl
    obtain ⟨rfl, rfl⟩ := Prod.mk.inj heq
    rw [hrecipe]
    exact ⟨i, t, e, hdated, hall, hrecommended, rfl⟩
  · rintro ⟨i, t, e, hdated, hall, hrecommended, rfl⟩
    have hrecipe := hlatest recipe
    cases hlookup : latest.lookup recipe with
    | none =>
      rw [hlookup] at hrecipe
      exact absurd hdated (hrecipe i t e)
    | some found =>
      rw [hlookup] at hrecipe
      obtain ⟨j, hdated', hall'⟩ := hrecipe
      obtain ⟨rfl, rfl, rfl⟩ := hdated.latest_unique hall hdated' hall'
      refine List.mem_map.2 ⟨⟨recipe, found⟩, List.mem_filter.2 ⟨AList.mem_lookup_iff.1 hlookup,
        hrecommended⟩, ?_⟩
      show (found.2.recipe, _) = _
      rw [Entry.recipe, hdated.recipeId]
      rfl

/-! ### The history after the decisions -/

/-- The history that the decisions of a check leave, before it is cut at the cap. -/
def afterDecisions (history decisions : List Entry) : List Entry :=
  let places := (history.foldl coalesceStep (∅, [])).1
  decisions.foldl (refresh places) (coalesceRecommendations history) ++ opening places decisions

/-- The number of places that the cap drops when the decisions come to a history. -/
def cutAt (history decisions : List Entry) : ℕ :=
  (coalesceRecommendations history).length +
    decisions.countP (fun d => (openAt history d.recipe).isNone) - historyCap

theorem capHistory_decisions (history : List Entry)
    (h : ∀ d ∈ decisions, Recommends now d) (hdistinct : (decisions.map Entry.recipe).Nodup) :
    capHistory (coalesceRecommendations (decisions.foldl appendHistoryRecord history)) =
      (afterDecisions history decisions).drop (cutAt history decisions) := by
  have hfold : coalesceRecommendations (decisions.foldl appendHistoryRecord history) =
      afterDecisions history decisions := by
    rw [coalesceRecommendations, foldl_decisions h]
    exact foldl_coalesceStep_decisions (isOpen_coalesce history)
      (fun d hd => ⟨(h d hd).recipe_ne, (h d hd).isRecommended⟩) hdistinct
  have hlength : (afterDecisions history decisions).length - historyCap =
      cutAt history decisions := by
    simp only [afterDecisions, List.length_append, length_foldl_refresh, opening, cutAt, openAt,
      List.countP_eq_length_filter]
  unfold capHistory
  rw [hfold, hlength]

/-- A record of the recipe that is not in the place of the recommendation stays where it is. -/
theorem afterDecisions_beside (hdistinct : (decisions.map Entry.recipe).Nodup)
    (hj : (coalesceRecommendations history)[j]? = some e)
    (hbeside : openAt history e.recipe ≠ some j) :
    (afterDecisions history decisions)[j]? = some e := by
  rw [afterDecisions]
  refine getElem?_append_of_some ?_
  obtain ⟨d, -, hplace, -⟩ | ⟨-, hget⟩ :=
    getElem?_foldl_refresh (isOpen_coalesce history) hdistinct
      (coalesceRecommendations history) rfl j
  · obtain ⟨e', he', -, hrecipe⟩ := isOpen_coalesce history d.recipe j hplace
    have heq : e' = e := Option.some.inj (he'.symm.trans hj)
    rw [← hrecipe, heq] at hplace
    exact absurd hplace hbeside
  · rw [hget, hj]

/-- Where a decision stands: in the place of the recommendation that it repeats or after the compact
history, and the last of its recipe. -/
theorem exists_place (history : List Entry) (hdistinct : (decisions.map Entry.recipe).Nodup)
    (hd : d ∈ decisions) :
    ∃ p, (afterDecisions history decisions)[p]? = some d ∧
      (openAt history d.recipe = some p ∨
        openAt history d.recipe = none ∧ (coalesceRecommendations history).length ≤ p) ∧
      ∀ j e, (afterDecisions history decisions)[j]? = some e → e.recipe = d.recipe → j ≠ p →
        j < p ∧ (coalesceRecommendations history)[j]? = some e ∧
          openAt history d.recipe ≠ some j := by
  have htracks := tracks_coalesce history
  have hinj : ∀ e ∈ decisions, e.recipe = d.recipe → e = d := fun e he heq =>
    List.inj_on_of_nodup_map hdistinct he hd heq
  have hget := getElem?_foldl_refresh htracks.isOpen hdistinct
    (coalesceRecommendations history) rfl
  have hlength := length_foldl_refresh (history.foldl coalesceStep (∅, [])).1
    (coalesceRecommendations history) decisions
  -- what a place has: a decision, a record of the compact history or a new recommendation
  have hcases : ∀ j e, (afterDecisions history decisions)[j]? = some e → e.recipe = d.recipe →
      openAt history d.recipe = some j ∨
        openAt history d.recipe ≠ some j ∧ (coalesceRecommendations history)[j]? = some e ∨
          (coalesceRecommendations history).length ≤ j ∧
            (opening (history.foldl coalesceStep (∅, [])).1
              decisions)[j - (coalesceRecommendations history).length]? = some e := by
    intro j e hj hrecipe
    rw [afterDecisions] at hj
    by_cases hlt : j < (coalesceRecommendations history).length
    · rw [List.getElem?_append_left (by rwa [hlength])] at hj
      obtain ⟨e', he', hplace, hget⟩ | ⟨hnone, hget⟩ := hget j
      · rw [hget] at hj
        cases hj
        rw [hrecipe] at hplace
        exact .inl hplace
      · rw [hget] at hj
        exact .inr (.inl ⟨hnone d hd, hj⟩)
    · rw [List.getElem?_append_right (by rw [hlength]; exact not_lt.1 hlt), hlength] at hj
      exact .inr (.inr ⟨not_lt.1 hlt, hj⟩)
  cases hopen : openAt history d.recipe with
  | some p =>
    refine ⟨p, ?_, .inl rfl, fun j e hj hrecipe hne => ?_⟩
    · rw [afterDecisions]
      refine getElem?_append_of_some ?_
      obtain ⟨e, he, hplace, hget⟩ | ⟨hnone, -⟩ := hget p
      · rw [hget, hinj e he (htracks.isOpen.inj hplace hopen)]
      · exact absurd hopen (hnone d hd)
    · obtain hplace | ⟨hbeside, hold⟩ | ⟨-, hnew⟩ := hcases j e hj hrecipe
      · exact absurd (Option.some.inj (hplace.symm.trans hopen)) hne
      · have hle : ¬ p < j := fun hlt => htracks.last d.recipe p j e hopen hlt hold hrecipe
        exact ⟨by omega, hold, hopen ▸ hbeside⟩
      · have hnone := (List.mem_filter.1 (List.mem_of_getElem? hnew)).2
        rw [hrecipe] at hnone
        rw [openAt] at hopen
        simp [hopen] at hnone
  | none =>
    have hmem : d ∈ opening (history.foldl coalesceStep (∅, [])).1 decisions :=
      List.mem_filter.2 ⟨hd, by rw [openAt] at hopen; simp [hopen]⟩
    obtain ⟨k, hk⟩ := List.getElem?_of_mem hmem
    refine ⟨(coalesceRecommendations history).length + k, ?_, .inr ⟨rfl, Nat.le_add_right _ _⟩,
      fun j e hj hrecipe hne => ?_⟩
    · rw [afterDecisions, List.getElem?_append_right (by rw [hlength]; omega), hlength,
        Nat.add_sub_cancel_left, hk]
    · obtain hplace | ⟨hbeside, hold⟩ | ⟨hle, hnew⟩ := hcases j e hj hrecipe
      · rw [hopen] at hplace
        cases hplace
      · have hlt := (List.getElem?_eq_some_iff.1 hold).1
        exact ⟨by omega, hold, hopen ▸ hbeside⟩
      · have heq := hinj e (List.mem_filter.1 (List.mem_of_getElem? hnew)).1 hrecipe
        have hnodup : (opening (history.foldl coalesceStep (∅, [])).1 decisions).Nodup :=
          (List.Nodup.of_map _ hdistinct).filter _
        rw [heq] at hnew
        have hindex := (List.getElem?_inj (List.getElem?_eq_some_iff.1 hk).1 hnodup).1
          (hk.trans hnew.symm)
        omega

/-! ### The report after a check -/

/-- A dated record of the recipe that a check keeps beside its own decision. -/
structure Rival (history decisions : List Entry) (recipe : String) (i : ℕ) (t : ℚ)
    (e : Entry) : Prop where
  record : (coalesceRecommendations history)[i]? = some e
  kept : cutAt history decisions ≤ i
  beside : openAt history recipe ≠ some i
  recipeId : e.recipeId = some recipe
  timestamp : e.timestamp = some t

/-- The cap leaves the place that the decision takes, and the latest of the records that are dated
after the check is a recommendation with the same detail. -/
structure Reportable (history decisions : List Entry) (now : ℚ) (d : Entry) : Prop where
  place : ∀ i, openAt history d.recipe = some i → cutAt history decisions ≤ i
  rival : ∀ i t e, Rival history decisions d.recipe i t e → now < t →
    (∀ j t' e', Rival history decisions d.recipe j t' e' → Precedes t' j t i) →
      e.isRecommended = true ∧ e.detail.getD "" = d.detail.getD ""

theorem mem_pending_iff_reportable {s : GuardianState}
    (hs : s.history = (afterDecisions history decisions).drop (cutAt history decisions))
    (hlength : decisions.length ≤ historyCap) (hdistinct : (decisions.map Entry.recipe).Nodup)
    (hread : readAt - now ≤ notifyThrottle) (hmem : d ∈ decisions) (hd : Recommends now d) :
    (d.recipe, d.detail.getD "") ∈ pendingRecommendations s readAt ↔
      Reportable history decisions now d := by
  obtain ⟨p, hp, hplace, hothers⟩ := exists_place history hdistinct hmem
  have hrecord : ∀ i, s.history[i]? =
      (afterDecisions history decisions)[cutAt history decisions + i]? := by
    intro i
    rw [hs, List.getElem?_drop]
  have hrecipe : ∀ {i t e}, Dated readAt s.history d.recipe i t e → e.recipe = d.recipe :=
    fun hdated => (recipe_eq_iff hd.recipe_ne).2 hdated.recipeId
  -- a record of the recipe stands at `p` or is a rival before it
  have hrival : ∀ {i t e}, Dated readAt s.history d.recipe i t e →
      cutAt history decisions + i = p ∨ cutAt history decisions + i < p ∧
        Rival history decisions d.recipe (cutAt history decisions + i) t e := by
    intro i t e hdated
    by_cases hi : cutAt history decisions + i = p
    · exact .inl hi
    · obtain ⟨hlt, hold, hbeside⟩ := hothers _ e (hrecord i ▸ hdated.record) (hrecipe hdated) hi
      exact .inr ⟨hlt, hold, Nat.le_add_right _ _, hbeside, hdated.recipeId, hdated.timestamp⟩
  have hself : ∀ {i t e}, Dated readAt s.history d.recipe i t e →
      cutAt history decisions + i = p → e = d ∧ t = now := by
    intro i t e hdated hi
    have he := hdated.record
    rw [hrecord, hi, hp] at he
    cases he
    have ht := hdated.timestamp
    rw [hd.timestamp] at ht
    exact ⟨rfl, (Option.some.inj ht).symm⟩
  -- a rival that is dated after the check is looked at
  have hdatedRival : ∀ {i t e}, Rival history decisions d.recipe i t e → now < t →
      Dated readAt s.history d.recipe (i - cutAt history decisions) t e := by
    intro i t e h hlater
    refine ⟨?_, h.recipeId, h.timestamp, by linarith⟩
    have hsame : e.recipe = d.recipe := (recipe_eq_iff hd.recipe_ne).2 h.recipeId
    rw [hrecord, Nat.add_sub_cancel' h.kept]
    exact afterDecisions_beside hdistinct h.record (hsame ▸ h.beside)
  constructor
  · intro hreported
    obtain ⟨i, t, e, hdated, hall, hrecommended, hdetail⟩ := mem_pendingRecommendations.1 hreported
    refine ⟨fun p' hp' => ?_, fun j t' e' hj hlater hlatest => ?_⟩
    · obtain hpp | ⟨hnone, -⟩ := hplace
      · rw [hp'] at hpp
        cases hpp
        obtain heq | ⟨hlt, -⟩ := hrival hdated <;> omega
      · rw [hp'] at hnone
        cases hnone
    · have hlast : ∀ k t'' e'', Dated readAt s.history d.recipe k t'' e'' →
          Precedes t'' k t' (j - cutAt history decisions) := by
        intro k t'' e'' hk
        obtain heq | ⟨-, hrivalk⟩ := hrival hk
        · exact .inl ((hself hk heq).2 ▸ hlater)
        · obtain hlt | ⟨heq, hle⟩ := hlatest _ t'' e'' hrivalk
          · exact .inl hlt
          · exact .inr ⟨heq, by omega⟩
      obtain ⟨-, -, rfl⟩ := hdated.latest_unique hall (hdatedRival hj hlater) hlast
      exact ⟨hrecommended, hdetail⟩
  · intro h
    have hkept : cutAt history decisions ≤ p := by
      obtain hopen | ⟨-, hle⟩ := hplace
      · exact h.place p hopen
      · have hcount := List.countP_le_length
          (p := fun d : Entry => (openAt history d.recipe).isNone) (l := decisions)
        rw [cutAt]
        omega
    have hdated : Dated readAt s.history d.recipe (p - cutAt history decisions) now d :=
      ⟨by rw [hrecord, Nat.add_sub_cancel' hkept, hp], hd.recipeId_eq, hd.timestamp, hread⟩
    obtain ⟨i, t, e, hlatest, hall⟩ := hdated.exists_latest
    refine mem_pendingRecommendations.2 ⟨i, t, e, hlatest, hall, ?_⟩
    obtain heq | ⟨hlt, hrivali⟩ := hrival hlatest
    · rw [(hself hlatest heq).1]
      exact ⟨hd.isRecommended, rfl⟩
    · have hlater : now < t := by
        obtain hlt' | ⟨-, hle⟩ := hall _ now d hdated
        · exact hlt'
        · omega
      refine h.rival _ t e hrivali hlater fun j t' e' hj => ?_
      by_cases hlater' : now < t'
      · obtain hlt' | ⟨heq, hle⟩ := hall _ t' e' (hdatedRival hj hlater')
        · exact .inl hlt'
        · exact .inr ⟨heq, by have := hj.kept; omega⟩
      · exact .inl ((not_lt.1 hlater').trans_lt hlater)

/-- A check reports all its recommendations exactly when the state has occurrences and every
decision is reportable. -/
theorem reported_iff (s : GuardianState) (active : List String) (decisions : List Entry)
    (now readAt : ℚ) (hdecisions : ∀ d ∈ decisions, Recommends now d)
    (hdistinct : (decisions.map Entry.recipe).Nodup) (hlength : decisions.length ≤ historyCap)
    (hread : readAt - now ≤ notifyThrottle) :
    (∃ s', recordServiceCheck s active decisions now = .ok s' ∧ ∀ d ∈ decisions,
        (d.recipe, d.detail.getD "") ∈ pendingRecommendations (saveState s') readAt) ↔
      s.occurrences.isSome = true ∧ ∀ d ∈ decisions, Reportable s.history decisions now d := by
  cases hoccurrences : s.occurrences with
  | none => simp [recordServiceCheck, hoccurrences]
  | some occurrences =>
    have hpending : ∀ s', recordServiceCheck s active decisions now = .ok s' → ∀ d ∈ decisions,
        ((d.recipe, d.detail.getD "") ∈ pendingRecommendations (saveState s') readAt ↔
          Reportable s.history decisions now d) := by
      intro s' hs' d hd
      rw [recordServiceCheck, hoccurrences] at hs'
      cases hs'
      rw [saveState_coalesced rfl]
      exact mem_pending_iff_reportable (capHistory_decisions _ hdecisions hdistinct) hlength
        hdistinct hread hd (hdecisions d hd)
    obtain ⟨s', hs'⟩ : ∃ s', recordServiceCheck s active decisions now = .ok s' :=
      ⟨_, by rw [recordServiceCheck, hoccurrences]⟩
    constructor
    · rintro ⟨s'', hs'', hall⟩
      exact ⟨rfl, fun d hd => (hpending s'' hs'' d hd).1 (hall d hd)⟩
    · rintro ⟨-, hall⟩
      exact ⟨s', hs', fun d hd => (hpending s' hs' d hd).2 (hall d hd)⟩

/-- A recommendation of a recipe. -/
def recommendation (recipe detail : String) (timestamp : ℚ) : Entry where
  timestamp := some timestamp
  recipeId := some recipe
  action := some "recommended"
  detail := some detail

/-- Two decisions of one check. -/
def checkDecisions : List Entry :=
  [recommendation "storage.maint" "Maintenance failed again." 7200,
    recommendation "memory.pressure-relief" "Memory pressure is high." 7200]

theorem recommends_checkDecisions : ∀ d ∈ checkDecisions, Recommends 7200 d := by
  intro d hd
  have hids : ∀ d ∈ checkDecisions, d.action = some "recommended" ∧
      (∃ recipe ∈ recipes, d.recipeId = some recipe.id) ∧ d.timestamp = some 7200 := by
    decide
  obtain ⟨haction, hid, hdate⟩ := hids d hd
  exact ⟨haction, hid, hdate⟩

/-- A short history: one decision takes the place of its predecessor, the other comes at the end. -/
theorem reported_checkDecisions :
    ∃ s', recordServiceCheck
        { history := [recommendation "storage.maint" "Maintenance failed." 3600] } ["storage"]
        checkDecisions 7200 = .ok s' ∧ ∀ d ∈ checkDecisions,
          (d.recipe, d.detail.getD "") ∈ pendingRecommendations (saveState s') 7201 := by
  refine (reported_iff _ _ checkDecisions 7200 7201 recommends_checkDecisions (by decide)
    (by decide) (by norm_num [notifyThrottle])).2 ⟨rfl, fun d hd => ⟨fun i _ => ?_, ?_⟩⟩
  · have hcut : cutAt [recommendation "storage.maint" "Maintenance failed." 3600] checkDecisions =
        0 := by decide
    rw [hcut]
    exact Nat.zero_le _
  · intro i t e hrival hlater
    have hold : coalesceRecommendations [recommendation "storage.maint" "Maintenance failed." 3600] =
        [recommendation "storage.maint" "Maintenance failed." 3600] := by decide
    obtain ⟨rfl, rfl⟩ : i = 0 ∧ recommendation "storage.maint" "Maintenance failed." 3600 = e := by
      have hrecord := hrival.record
      rw [hold, List.getElem?_singleton] at hrecord
      split_ifs at hrecord with hi
      exact ⟨hi, Option.some.inj hrecord⟩
    have hdate := Option.some.inj hrival.timestamp
    norm_num [← hdate] at hlater

/-- A full history, whose oldest record is an open recommendation. -/
def fullHistory : List Entry :=
  recommendation "storage.maint" "Maintenance failed." 3600 ::
    List.replicate 199 (dismissalRecord "audio.restart" 3600)

/-- A check repeats the oldest recommendation and makes a new one: the repeated one is cut off. -/
theorem repeated_recommendation_lost :
    fullHistory.length = 200 ∧ (∀ d ∈ checkDecisions, Recommends 7200 d) ∧
      (checkDecisions.map Entry.recipe).Nodup ∧
      ∃ s', recordServiceCheck { history := fullHistory } ["storage"] checkDecisions 7200 =
          .ok s' ∧
        ("storage.maint", "Maintenance failed again.") ∉
          pendingRecommendations (saveState s') 7200 := by
  have hdistinct : (checkDecisions.map Entry.recipe).Nodup := by decide
  refine ⟨by decide +kernel, recommends_checkDecisions, hdistinct, _, rfl, ?_⟩
  rw [saveState_coalesced rfl]
  have hd : recommendation "storage.maint" "Maintenance failed again." 7200 ∈ checkDecisions :=
    List.mem_cons_self
  intro hreported
  have hreportable := (mem_pending_iff_reportable
    (capHistory_decisions fullHistory recommends_checkDecisions hdistinct) (by decide)
    hdistinct (by norm_num [notifyThrottle]) hd (recommends_checkDecisions _ hd)).1 hreported
  have hcut : ¬ cutAt fullHistory checkDecisions ≤ 0 := by decide +kernel
  exact hcut (hreportable.place 0 (by decide +kernel))

end Kyth.Guardian
