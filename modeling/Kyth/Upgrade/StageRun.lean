import Kyth.Lib.Ratchet
import Kyth.Upgrade.Progress

/-!
# The markers of an upgrade (`run_upgrade`, `run_bootc_child_with`)

Two threads read what `bootc upgrade` says while it runs, one from standard error and one from the pipe
with the JSON lines, and each writes a marker when its parser returns one. The parsers keep their own last
percentage, so each writer by itself never goes back. Nothing holds the two together, and nothing holds the
text of standard error to the marker that the run begins with.

`steady_iff` says for which texts the percentages of the output still never decrease and stay below 100,
whatever the order of the two writers.
-/

namespace Kyth.Upgrade

open Str Binary64 Ratchet
open Kyth.Json (Value)

variable {fromStr : String → Option Value} {fragment : Fragment} {state : StageProgress}

/-! ### The run -/

/-- The two readers and what has been written. -/
structure Readers where
  fragments : List Fragment
  lines : List String
  progress : StageProgress := {}
  json : JsonProgress := {}
  output : List Marker

/-- A turn of one of the readers: `true` for standard error. -/
def Readers.step (fromStr : String → Option Value) (m : Readers) : Bool → Readers
  | true =>
      match m.fragments with
      | [] => m
      | fragment :: rest =>
          let (marker, progress) := drainFragment fragment m.progress
          { m with fragments := rest, progress, output := m.output ++ marker.toList }
  | false =>
      match m.lines with
      | [] => m
      | line :: rest =>
          let (marker, json) := classifyProgressJson fromStr line m.json
          { m with lines := rest, json, output := m.output ++ marker.toList }

/-- The child has been started: `run_upgrade` has written its marker. -/
def Readers.start (fragments : List Fragment) (lines : List String) : Readers where
  fragments
  lines
  output := [⟨1, .download, "Starting image download"⟩]

def Readers.run (fromStr : String → Option Value) (m : Readers) (schedule : List Bool) : Readers :=
  schedule.foldl (Readers.step fromStr) m

/-- The percentages never decrease and stay below 100, along every schedule and at every point of it. -/
def Steady (fromStr : String → Option Value) (fragments : List Fragment) (lines : List String) : Prop :=
  ∀ schedule,
    (((Readers.start fragments lines).run fromStr schedule).output.map Marker.pct).Pairwise (· ≤ ·) ∧
      ∀ p ∈ ((Readers.start fragments lines).run fromStr schedule).output.map Marker.pct, p < 100

/-- What a reader writes, input by input. -/
def emits {ι σ : Type} (classify : ι → σ → Option Marker × σ) : σ → List ι → List (Option ℕ)
  | _, [] => []
  | s, i :: rest => (classify i s).1.map Marker.pct :: emits classify (classify i s).2 rest

theorem filterMap_cons_option {α : Type} (x : Option α) (l : List (Option α)) :
    (x :: l).filterMap id = x.toList ++ l.filterMap id := by
  cases x with
  | none => rfl
  | some a => rfl

theorem map_toList_pct (marker : Option Marker) :
    marker.toList.map Marker.pct = (marker.map Marker.pct).toList := by
  cases marker with
  | none => rfl
  | some marker => rfl

/-- The two readers do not touch each other's state: a run writes what they write, interleaved. -/
theorem run_output (m : Readers) (schedule : List Bool) :
    (m.run fromStr schedule).output.map Marker.pct = m.output.map Marker.pct ++
      (interleave schedule (emits drainFragment m.progress m.fragments)
        (emits (classifyProgressJson fromStr) m.json m.lines)).filterMap id := by
  induction schedule generalizing m with
  | nil => simp [Readers.run, interleave]
  | cons turn schedule ih =>
    show ((m.step fromStr turn).run fromStr schedule).output.map Marker.pct = _
    rw [ih]
    cases turn with
    | true =>
      cases hfragments : m.fragments with
      | nil => simp only [Readers.step, hfragments, emits, interleave]
      | cons fragment rest =>
        simp only [Readers.step, hfragments, emits, interleave, filterMap_cons_option, List.map_append,
          map_toList_pct, List.append_assoc]
    | false =>
      cases hlines : m.lines with
      | nil => simp only [Readers.step, hlines, emits, interleave]
      | cons line rest =>
        simp only [Readers.step, hlines, emits, interleave, filterMap_cons_option, List.map_append,
          map_toList_pct, List.append_assoc]

/-! ### The readings -/

/-- The text of a fragment that is classified. -/
def Fragment.line (fragment : Fragment) : Option (List Char) :=
  if fragment.truncated then none else visibleLine fragment.text

/-- How far the text of standard error is, after each visible fragment of it. -/
def shares : StageCounts → List Fragment → List ℕ
  | _, [] => []
  | c, fragment :: rest =>
      match fragment.line with
      | none => shares c rest
      | some line => (count line c).pct.1 :: shares (count line c) rest

theorem shares_none {c : StageCounts} {rest : List Fragment} (h : fragment.line = none) :
    shares c (fragment :: rest) = shares c rest := by
  rw [shares, h]

theorem shares_some {c : StageCounts} {rest : List Fragment} {line : List Char}
    (h : fragment.line = some line) :
    shares c (fragment :: rest) = (count line c).pct.1 :: shares (count line c) rest := by
  rw [shares, h]

/-- How far a JSON line is. A pull that is tried again has no place of its own. -/
def reading (fromStr : String → Option Value) (line : String) : Option ℕ :=
  ((fromStr (trim line)).bind fun event => progressEvent event 0).map Marker.pct

/-- How far the JSON lines are. -/
def readings (fromStr : String → Option Value) (lines : List String) : List ℕ :=
  lines.filterMap (reading fromStr)

theorem pct_install (c : StageCounts) (h : c.pct.2 = .install) : 85 ≤ c.pct.1 := by
  unfold StageCounts.pct at h ⊢
  by_cases hdeploy : 0 < c.deploySteps ∨ c.fetchFinalized = true
  · rw [if_pos hdeploy]
    exact le_max_right _ _
  · simp only [if_neg hdeploy] at h
    split at h
    · cases h
    · split at h <;> cases h

/-- A fragment without visible text changes nothing. -/
theorem drainFragment_none (h : fragment.line = none) : drainFragment fragment state = (none, state) := by
  unfold Fragment.line at h
  unfold drainFragment
  split at h
  next htruncated => rw [if_pos htruncated]
  next htruncated =>
    rw [if_neg htruncated]
    unfold classifyBootcFragment
    rw [h]

/-- What the stderr parser does with a visible line: it counts the line, and writes a marker when the
percentage has grown, or is the same and there is something new to say. -/
theorem drainFragment_some {line : List Char} (state : StageProgress) (h : fragment.line = some line) :
    (count line state.toStageCounts).pct.1 ≤ state.lastPct ∧
        (state.lastEmit = none → (count line state.toStageCounts).pct.1 < state.lastPct) ∧
        (drainFragment fragment state).1 = none ∧
        (drainFragment fragment state).2 = { state with toStageCounts := count line state.toStageCounts } ∨
      state.lastPct ≤ (count line state.toStageCounts).pct.1 ∧
        (drainFragment fragment state).1.map Marker.pct = some (count line state.toStageCounts).pct.1 ∧
        (drainFragment fragment state).2.toStageCounts = count line state.toStageCounts ∧
        (drainFragment fragment state).2.lastPct = (count line state.toStageCounts).pct.1 ∧
        (drainFragment fragment state).2.lastEmit ≠ none := by
  have hdrain : drainFragment fragment state = classifyBootcFragment fragment state ∧
      visibleLine fragment.text = some line := by
    unfold Fragment.line at h
    unfold drainFragment
    split at h
    next => cases h
    next htruncated => exact ⟨if_neg htruncated, h⟩
  rw [hdrain.1]
  unfold classifyBootcFragment
  rw [hdrain.2]
  have hinstall := pct_install (count line state.toStageCounts)
  by_cases hback : (count line state.toStageCounts).pct.1 < state.lastPct ∧
      ¬ ((count line state.toStageCounts).pct.2 = .install ∧ state.lastPct < 85)
  · simp only [if_pos hback]
    exact .inl ⟨hback.1.le, fun _ => hback.1, trivial, trivial⟩
  · -- the exception for the installation is never needed: its percentages start at 85
    have hle : state.lastPct ≤ (count line state.toStageCounts).pct.1 := by
      by_contra hlt
      refine hback ⟨not_le.1 hlt, fun hexcept => ?_⟩
      have := hinstall hexcept.1
      omega
    simp only [if_neg hback]
    split
    next hsame =>
      refine .inl ⟨hsame.1.le, fun hnone => ?_, rfl, rfl⟩
      rw [hnone] at hsame
      exact absurd hsame.2.2 (by simp)
    next => exact .inr ⟨hle, rfl, rfl, rfl, by simp⟩

/-- The stderr parser is a ratchet. -/
theorem stderr_reports (state : StageProgress) (fragments : List Fragment) (h : state.lastEmit ≠ none) :
    Reports state.lastPct (shares state.toStageCounts fragments)
      ((emits drainFragment state fragments).filterMap id) := by
  induction fragments generalizing state with
  | nil => exact .nil
  | cons fragment rest ih =>
    rw [emits, filterMap_cons_option]
    cases hline : fragment.line with
    | none =>
      rw [shares_none hline, drainFragment_none hline]
      exact ih state h
    | some line =>
      rw [shares_some hline]
      obtain ⟨hle, -, hmarker, hnext⟩ | ⟨hle, hmarker, hcounts, hlast, hemit⟩ :=
        drainFragment_some state hline
      · rw [hmarker, hnext]
        exact .silent hle (ih { state with toStageCounts := count line state.toStageCounts } h)
      · have hrest := ih _ hemit
        rw [hcounts, hlast] at hrest
        rw [hmarker]
        obtain heq | hlt := hle.eq_or_lt
        · rw [← heq] at hrest ⊢
          exact .again le_rfl hrest
        · exact .up hlt hrest

/-- Its first visible fragment gives a marker. -/
theorem stderr_shown (c : StageCounts) (fragments : List Fragment) :
    Shown (shares c fragments)
      ((emits drainFragment { toStageCounts := c } fragments).filterMap id) := by
  induction fragments with
  | nil => exact .nil
  | cons fragment rest ih =>
    rw [emits, filterMap_cons_option]
    cases hline : fragment.line with
    | none =>
      rw [shares_none hline, drainFragment_none hline]
      exact ih
    | some line =>
      rw [shares_some hline]
      obtain ⟨-, hlt, -, -⟩ | ⟨-, hmarker, hcounts, hlast, hemit⟩ :=
        drainFragment_some { toStageCounts := c } hline
      · exact absurd (hlt rfl) (Nat.not_lt_zero _)
      · have hrest := stderr_reports _ rest hemit
        rw [hcounts, hlast] at hrest
        rw [hmarker]
        exact .cons hrest

/-! ### The JSON lines -/

/-- The download has at most 85 percent. -/
theorem pull_le (x : Float) : (85.0 * clamp x 0.0 1.0).toUInt8.toNat ≤ 85 := by
  have hunpack : (85.0 : Float).toModel.unpack =
      .finite .positive (85 * 2 ^ 46) (-((46 : ℕ) : ℤ)) (by decide) := by rfl
  exact toUInt8_mul_clamp_le hunpack (by decide) le_rfl (by decide) x

/-- What an event asks for, compared with what it asks for at the beginning. -/
theorem progressEvent_cases (event : Value) (lastPct : ℕ) :
    progressEvent event lastPct = none ∧ progressEvent event 0 = none ∨
      ∃ marker first, progressEvent event lastPct = some marker ∧ progressEvent event 0 = some first ∧
        1 ≤ first.pct ∧ first.pct ≤ 88 ∧
        (marker.pct = first.pct ∨ first.pct ≤ lastPct ∧ marker.pct = lastPct) := by
  unfold progressEvent
  cases (event.get "type").bind Value.asStr with
  | none => exact .inl ⟨rfl, rfl⟩
  | some kind =>
    simp only [Option.bind_eq_bind, Option.bind_some]
    generalize ((event.get "task").bind Value.asStr).getD "" = task
    by_cases hbytes : kind = "ProgressBytes" ∧ task = "pulling"
    · simp only [if_pos hbytes]
      have hpull := pull_le (pullFraction event)
      exact .inr ⟨_, _, rfl, rfl, le_max_right _ _, max_le (hpull.trans (by decide)) (by decide), .inl rfl⟩
    · simp only [if_neg hbytes]
      by_cases hsteps : kind = "ProgressSteps" ∧ task = "pulling"
      · simp only [if_pos hsteps]
        cases (event.get "description").bind Value.asStr with
        | none => exact .inl ⟨rfl, rfl⟩
        | some description =>
          refine .inr ⟨_, _, rfl, rfl, le_max_right _ _, (by decide : max 0 1 ≤ 88), ?_⟩
          -- the place is the last one, or the beginning
          by_cases hzero : lastPct = 0
          · subst hzero
            exact .inl rfl
          · exact .inr ⟨by simp; omega, by simp; omega⟩
      · simp only [if_neg hsteps]
        by_cases himport : kind = "ProgressSteps" ∧ task = "importing"
        · simp only [if_pos himport]
          split
          · exact .inr ⟨_, _, rfl, rfl, by decide, by decide, .inl rfl⟩
          · exact .inr ⟨_, _, rfl, rfl, by decide, by decide, .inl rfl⟩
        · simp only [if_neg himport]
          exact .inl ⟨trivial, trivial⟩

theorem classifyProgressJson_none {line : String} (json : JsonProgress) (h : reading fromStr line = none) :
    classifyProgressJson fromStr line json = (none, json) := by
  unfold reading at h
  unfold classifyProgressJson
  cases hparse : fromStr (trim line) with
  | none => rfl
  | some event =>
    rw [hparse, Option.bind_some, Option.map_eq_none_iff] at h
    obtain ⟨hnone, -⟩ | ⟨-, first, -, hfirst, -⟩ := progressEvent_cases event json.lastPct
    · rw [Option.bind_some, hnone]
    · rw [h] at hfirst
      cases hfirst

/-- What the JSON parser does with a line that it knows. -/
theorem classifyProgressJson_some {line : String} {p : ℕ} (json : JsonProgress)
    (h : reading fromStr line = some p) :
    p ≤ json.lastPct ∧ classifyProgressJson fromStr line json = (none, json) ∨
      p ≤ json.lastPct ∧ (classifyProgressJson fromStr line json).1.map Marker.pct = some json.lastPct ∧
        (classifyProgressJson fromStr line json).2.lastPct = json.lastPct ∨
      json.lastPct < p ∧ (classifyProgressJson fromStr line json).1.map Marker.pct = some p ∧
        (classifyProgressJson fromStr line json).2.lastPct = p := by
  unfold reading at h
  unfold classifyProgressJson
  cases hparse : fromStr (trim line) with
  | none => rw [hparse] at h; cases h
  | some event =>
    rw [hparse, Option.bind_some] at h
    rw [Option.bind_some]
    obtain ⟨-, hnone⟩ | ⟨marker, first, hmarker, hfirst, -, -, hpct⟩ :=
      progressEvent_cases event json.lastPct
    · rw [hnone] at h
      cases h
    · rw [hfirst] at h
      obtain rfl : first.pct = p := Option.some.inj h
      simp only [hmarker]
      by_cases hback : marker.pct < json.lastPct
      · rw [if_pos hback]
        exact .inl ⟨by omega, rfl⟩
      · rw [if_neg hback]
        by_cases hsame : marker.pct = json.lastPct ∧ marker.detail = json.lastDetail
        · rw [if_pos hsame]
          exact .inl ⟨by omega, rfl⟩
        · rw [if_neg hsame]
          by_cases hle : first.pct ≤ json.lastPct
          · have heq : marker.pct = json.lastPct := by omega
            exact .inr (.inl ⟨hle, congrArg some heq, heq⟩)
          · have heq : marker.pct = first.pct := by omega
            exact .inr (.inr ⟨not_le.1 hle, congrArg some heq, heq⟩)

theorem reading_bounds {line : String} {p : ℕ} (h : reading fromStr line = some p) : 1 ≤ p ∧ p ≤ 88 := by
  unfold reading at h
  obtain ⟨first, hfirst, rfl⟩ := Option.map_eq_some_iff.1 h
  obtain ⟨event, -, hevent⟩ := Option.bind_eq_some_iff.1 hfirst
  obtain ⟨-, hnone⟩ | ⟨-, first', -, hfirst', hlow, hhigh, -⟩ := progressEvent_cases event 0
  · rw [hnone] at hevent
    cases hevent
  · rw [hfirst'] at hevent
    obtain rfl := Option.some.inj hevent
    exact ⟨hlow, hhigh⟩

/-- The JSON parser is a ratchet. -/
theorem json_reports (json : JsonProgress) (lines : List String) :
    Reports json.lastPct (readings fromStr lines)
      ((emits (classifyProgressJson fromStr) json lines).filterMap id) := by
  induction lines generalizing json with
  | nil => exact .nil
  | cons line rest ih =>
    rw [emits, filterMap_cons_option]
    cases hline : reading fromStr line with
    | none =>
      rw [readings, List.filterMap_cons_none hline, classifyProgressJson_none json hline]
      exact ih json
    | some p =>
      rw [readings, List.filterMap_cons_some hline]
      obtain ⟨hle, hnone⟩ | ⟨hle, hmarker, hlast⟩ | ⟨hlt, hmarker, hlast⟩ :=
        classifyProgressJson_some json hline
      · rw [hnone]
        exact .silent hle (ih json)
      · have hrest := ih (classifyProgressJson fromStr line json).2
        rw [hlast] at hrest
        rw [hmarker]
        exact .again hle hrest
      · have hrest := ih (classifyProgressJson fromStr line json).2
        rw [hlast] at hrest
        rw [hmarker]
        exact .up hlt hrest

/-- Its first known line gives a marker. -/
theorem json_shown (lines : List String) :
    Shown (readings fromStr lines) ((emits (classifyProgressJson fromStr) {} lines).filterMap id) := by
  induction lines with
  | nil => exact .nil
  | cons line rest ih =>
    rw [emits, filterMap_cons_option]
    cases hline : reading fromStr line with
    | none =>
      rw [readings, List.filterMap_cons_none hline, classifyProgressJson_none {} hline]
      exact ih
    | some p =>
      rw [readings, List.filterMap_cons_some hline]
      have hpos := (reading_bounds hline).1
      obtain ⟨hle, -⟩ | ⟨hle, -⟩ | ⟨-, hmarker, hlast⟩ := classifyProgressJson_some {} hline
      · exact absurd hle (Nat.not_le_of_lt hpos)
      · exact absurd hle (Nat.not_le_of_lt hpos)
      · have hrest : Reports _ (readings fromStr rest) _ :=
          json_reports (classifyProgressJson fromStr line {}).2 rest
        rw [hlast] at hrest
        rw [hmarker]
        exact .cons hrest

/-! ### When the output is steady -/

/-- The two texts are in step: standard error begins at 1 percent or later and never shows 100 percent; and
when both say something, both begin with the same percentage and never go beyond it. -/
structure InStep (fromStr : String → Option Value) (fragments : List Fragment) (lines : List String) :
    Prop where
  begins : ∀ p ∈ (shares {} fragments).head?, 1 ≤ p
  below : ∀ p ∈ shares {} fragments, p < 100
  together : shares {} fragments ≠ [] → readings fromStr lines ≠ [] → ∃ v,
    ((∀ p ∈ (shares {} fragments).head?, p = v) ∧ ∀ p ∈ shares {} fragments, p ≤ v) ∧
      (∀ p ∈ (readings fromStr lines).head?, p = v) ∧ ∀ p ∈ readings fromStr lines, p ≤ v

/-- Two lists have only one value between them. -/
theorem cross_eq_iff {a b : List ℕ} :
    (∀ x ∈ a, ∀ y ∈ b, x ≤ y ∧ y ≤ x) ↔
      (a ≠ [] → b ≠ [] → ∃ v, (∀ x ∈ a, x = v) ∧ ∀ y ∈ b, y = v) := by
  constructor
  · intro h hne _
    obtain ⟨x, hx⟩ := List.exists_mem_of_ne_nil a hne
    obtain ⟨y, hy⟩ := List.exists_mem_of_ne_nil b ‹b ≠ []›
    have hxy : x = y := le_antisymm (h x hx y hy).1 (h x hx y hy).2
    refine ⟨x, fun z hz => ?_, fun z hz => (le_antisymm (h x hx z hz).1 (h x hx z hz).2).symm⟩
    exact (le_antisymm (h z hz y hy).1 (h z hz y hy).2).trans hxy.symm
  · intro h x hx y hy
    obtain ⟨v, ha, hb⟩ := h (List.ne_nil_of_mem hx) (List.ne_nil_of_mem hy)
    rw [ha x hx, hb y hy]
    exact ⟨le_rfl, le_rfl⟩

theorem forall_mem_filterMap_id {α : Type} {l : List (Option α)} {Q : α → Prop} :
    (∀ p ∈ l.filterMap id, Q p) ↔ ∀ x ∈ l, ∀ p, x = some p → Q p := by
  constructor
  · rintro h x hx p rfl
    exact h p (List.mem_filterMap.2 ⟨_, hx, rfl⟩)
  · intro h p hp
    obtain ⟨x, hx, hsome⟩ := List.mem_filterMap.1 hp
    exact h x hx p hsome

/-- The output in terms of the two writers. -/
theorem steady_iff_writers {fragments : List Fragment} {lines : List String} :
    Steady fromStr fragments lines ↔
      ((∀ p ∈ (emits drainFragment {} fragments).filterMap id, 1 ≤ p ∧ p < 100) ∧
        ∀ p ∈ (emits (classifyProgressJson fromStr) {} lines).filterMap id, 1 ≤ p ∧ p < 100) ∧
      ∀ x ∈ (emits drainFragment {} fragments).filterMap id,
        ∀ y ∈ (emits (classifyProgressJson fromStr) {} lines).filterMap id, x ≤ y ∧ y ≤ x := by
  have hstderr := (stderr_shown {} fragments).pairwise
  have hjson : ((emits (classifyProgressJson fromStr) {} lines).filterMap id).Pairwise (· ≤ ·) :=
    (json_shown lines).pairwise
  have houtput : ∀ schedule, ((Readers.start fragments lines).run fromStr schedule).output.map Marker.pct =
      1 :: (interleave schedule (emits drainFragment {} fragments)
        (emits (classifyProgressJson fromStr) {} lines)).filterMap id := fun schedule => run_output _ _
  unfold Steady
  simp only [houtput, List.pairwise_cons, List.forall_mem_cons]
  generalize emits drainFragment {} fragments = a at hstderr ⊢
  generalize emits (classifyProgressJson fromStr) {} lines = b at hjson ⊢
  rw [List.pairwise_filterMap] at hstderr hjson
  have hbounds := forall_mem_interleave_iff (a := a) (b := b) (Q := fun x => ∀ p, x = some p → 1 ≤ p ∧ p < 100)
  have horder := pairwise_interleave_iff (a := a) (b := b)
    (R := fun x y => ∀ p, id x = some p → ∀ q, id y = some q → p ≤ q)
  simp only [forall_mem_filterMap_id, List.pairwise_filterMap]
  rw [← hbounds]
  constructor
  · intro h
    refine ⟨fun schedule x hx p hp => ⟨(h schedule).1.1 x hx p hp, (h schedule).2.2 x hx p hp⟩, ?_⟩
    obtain ⟨-, -, hcross⟩ := horder.1 fun schedule => (h schedule).1.2
    exact fun x hx p hp y hy q hq => ⟨(hcross x hx y hy).1 p hp q hq, (hcross x hx y hy).2 q hq p hp⟩
  · rintro ⟨hall, hcross⟩ schedule
    refine ⟨⟨fun x hx p hp => (hall schedule x hx p hp).1, ?_⟩, by decide, fun x hx p hp =>
      (hall schedule x hx p hp).2⟩
    refine horder.2 ⟨hstderr, hjson, fun x hx y hy => ⟨fun p hp q hq => ?_, fun q hq p hp => ?_⟩⟩ schedule
    · exact (hcross x hx p hp y hy q hq).1
    · exact (hcross x hx p hp y hy q hq).2

/-- The percentages of the output never decrease and stay below 100, for every order of the two writers,
exactly when the two texts are in step. -/
theorem steady_iff (fromStr : String → Option Value) (fragments : List Fragment) (lines : List String) :
    Steady fromStr fragments lines ↔ InStep fromStr fragments lines := by
  have hstderr := stderr_shown {} fragments
  have hjson : Shown (readings fromStr lines) _ := json_shown lines
  have hjsonBounds : ∀ p ∈ readings fromStr lines, 1 ≤ p ∧ p < 100 := by
    intro p hp
    obtain ⟨line, -, hline⟩ := List.mem_filterMap.1 hp
    have := reading_bounds hline
    omega
  -- the JSON lines keep to their bounds by themselves
  have hjsonAll : ∀ p ∈ (emits (classifyProgressJson fromStr) {} lines).filterMap id, 1 ≤ p ∧ p < 100 := by
    intro p hp
    refine ⟨hjson.forall_ge_iff.2 (fun q hq => ?_) p hp, hjson.forall_lt_iff.2 (fun q hq => ?_) p hp⟩
    · exact (hjsonBounds q (List.mem_of_mem_head? hq)).1
    · exact (hjsonBounds q hq).2
  rw [steady_iff_writers, cross_eq_iff]
  constructor
  · rintro ⟨⟨hbounds, -⟩, htogether⟩
    refine ⟨hstderr.forall_ge_iff.1 fun p hp => (hbounds p hp).1,
      hstderr.forall_lt_iff.1 fun p hp => (hbounds p hp).2, fun hs hj => ?_⟩
    obtain ⟨v, hv, hv'⟩ := htogether (mt hstderr.eq_nil_iff.1 hs) (mt hjson.eq_nil_iff.1 hj)
    exact ⟨v, hstderr.forall_eq_iff.1 hv, hjson.forall_eq_iff.1 hv'⟩
  · rintro ⟨hbegins, hbelow, htogether⟩
    refine ⟨⟨fun p hp => ⟨hstderr.forall_ge_iff.2 hbegins p hp, hstderr.forall_lt_iff.2 hbelow p hp⟩,
      hjsonAll⟩, fun hs hj => ?_⟩
    obtain ⟨v, hv, hv'⟩ := htogether (mt hstderr.eq_nil_iff.2 hs) (mt hjson.eq_nil_iff.2 hj)
    exact ⟨v, hstderr.forall_eq_iff.2 hv, hjson.forall_eq_iff.2 hv'⟩

/-! ### A stage that goes back -/

/-- The event of a download that is half done. -/
def halfPulled : Value :=
  .object [("type", .string "ProgressBytes"), ("task", .string "pulling"),
    ("bytes", .number (.posInt 2200000000)), ("bytesTotal", .number (.posInt 4400000000))]

def halfPulledLine : String :=
  "\x7b\"type\":\"ProgressBytes\",\"task\":\"pulling\",\"bytes\":2200000000,\"bytesTotal\":4400000000\x7d"

/-- A JSON parser, as far as this line goes. -/
def parseHalfPulled (text : String) : Option Value := if text = halfPulledLine then some halfPulled else none

/-- The line with which `bootc` announces the layers. -/
def layersNeeded : Fragment where
  text := "layers already present: 30; layers needed: 39 (4.4 GB)\n"

/-- The download is half done, and then the announcement of the layers takes the percentage to zero. -/
theorem announced_layers_go_back :
    ((Readers.start [layersNeeded] [halfPulledLine]).run parseHalfPulled [false, true]).output.map
        Marker.pct = [1, 42, 0] ∧
      ¬ Steady parseHalfPulled [layersNeeded] [halfPulledLine] := by
  have hrun : ((Readers.start [layersNeeded] [halfPulledLine]).run parseHalfPulled
      [false, true]).output.map Marker.pct = [1, 42, 0] := by decide +kernel
  refine ⟨hrun, fun hsteady => ?_⟩
  have hpairwise := (hsteady [false, true]).1
  rw [hrun] at hpairwise
  exact absurd hpairwise (by decide)

end Kyth.Upgrade
