import Kyth.Lib.Segments
import Kyth.Lib.Str
import Mathlib.Data.String.Basic

/-!
# The downgrade gate (`safe_upgrade_policy.rs`)

Image versions are compared segment by segment, numerically where both segments are numbers and
lexically otherwise. The two orders of numbers differ (`10` and `9`), so a segment that is no number
can stand between two numbers on the wrong side of each other. `version_order` says that nothing
else breaks the order.
-/

namespace Kyth.Upgrade

open Str Segments

/-- The separators of a version. -/
def isSeparator (c : Char) : Bool := c == '.' || c == '-' || c == '_' || c == '+'

/-- The segments of a version: `split` without the empty ones. -/
def segments (version : String) : List String :=
  ((version.toList.splitOnP isSeparator).map String.ofList).filter fun segment => segment ≠ ""

/-- Compare two segments. -/
def compareSegments (left right : String) : Ordering :=
  match parseU64 left, parseU64 right with
  | some m, some n => compare m n
  | _, _ => compare left right

/-- A version without a visible character. -/
def isBlank (version : String) : Bool := trim version == ""

/-- `compare_image_versions`. -/
def compareImageVersions (booted staged : String) : Option Ordering :=
  if isBlank booted || isBlank staged then none
  else some (compareBy compareSegments (segments booted) (segments staged))

/-- `validate_not_downgrade`. -/
def validateNotDowngrade (bootedVersion bootedDigest stagedVersion stagedDigest : Option String)
    (allowDowngrade : Bool) : Except String Unit :=
  if bootedDigest.isSome && bootedDigest != some "" && bootedDigest == stagedDigest then .ok ()
  else
    match bootedVersion, stagedVersion with
    | some booted, some staged =>
        if compareImageVersions booted staged = some .gt ∧ allowDowngrade = false then
          .error ("refusing staged downgrade from version '" ++ booted ++ "' to '" ++ staged ++
            "'; set auto_update.allow_downgrade = true to permit it")
        else .ok ()
    | _, _ => .ok ()

/-! ### Segments -/

/-- A segment that is no number lies lexically between two numbers, the second of which is not
greater than the first. -/
def Straddles (low middle high : String) : Prop :=
  parseU64 middle = none ∧ compare low middle = .lt ∧ compare middle high = .lt ∧
    ∃ m n, parseU64 low = some m ∧ parseU64 high = some n ∧ (compare n m).isLE

/-- No position of the versions has a segment that straddles two numbers. -/
def Coherent (versions : List String) : Prop :=
  ∀ a ∈ versions, ∀ b ∈ versions, ∀ c ∈ versions, ∀ (i : ℕ) (x y z : String),
    (segments a)[i]? = some x → (segments b)[i]? = some y → (segments c)[i]? = some z →
      ¬ Straddles x y z

variable {left right x y z : String} {m n : UInt64}

theorem compareSegments_of_some (hleft : parseU64 left = some m) (hright : parseU64 right = some n) :
    compareSegments left right = compare m n := by
  rw [compareSegments, hleft, hright]

theorem compareSegments_of_left_none (hleft : parseU64 left = none) :
    compareSegments left right = compare left right := by
  rw [compareSegments, hleft]

theorem compareSegments_of_right_none (hright : parseU64 right = none) :
    compareSegments left right = compare left right := by
  rw [compareSegments, hright]
  cases parseU64 left <;> rfl

theorem compareSegments_swap (left right : String) :
    compareSegments right left = (compareSegments left right).swap := by
  cases hleft : parseU64 left with
  | none =>
    rw [compareSegments_of_right_none hleft, compareSegments_of_left_none hleft]
    exact Std.OrientedOrd.eq_swap
  | some m =>
    cases hright : parseU64 right with
    | none =>
      rw [compareSegments_of_left_none hright, compareSegments_of_right_none hright]
      exact Std.OrientedOrd.eq_swap
    | some n =>
      rw [compareSegments_of_some hright hleft, compareSegments_of_some hleft hright]
      exact Std.OrientedOrd.eq_swap

/-- A number and a segment that is none are never the same, so their comparison is strict. -/
theorem lt_of_isLE_of_parse_ne (h : (compare left right).isLE)
    (hne : parseU64 left ≠ parseU64 right) : compare left right = .lt := by
  cases hcompare : compare left right with
  | lt => rfl
  | gt => simp [hcompare] at h
  | eq => exact absurd (congrArg parseU64 (Std.LawfulEqOrd.eq_of_compare hcompare)) hne

theorem lt_of_not_lt_of_parse_ne (h : ¬ compare left right = .lt)
    (hne : parseU64 left ≠ parseU64 right) : compare right left = .lt := by
  refine lt_of_isLE_of_parse_ne ?_ hne.symm
  rw [Std.OrientedOrd.eq_swap (a := right)]
  cases hcompare : compare left right <;> simp_all

/-- Without a straddling segment a triple of segments is ordered. -/
theorem transAt_compareSegments (hxyz : ¬ Straddles x y z) (hyzx : ¬ Straddles y z x)
    (hzxy : ¬ Straddles z x y) : TransAt compareSegments x y z := by
  -- one strict step suffices, since a mixed comparison is never an equality
  have hstrict (h : (compareSegments x y).isLE → (compareSegments y z).isLE →
      compareSegments x z = .lt) : TransAt compareSegments x y z :=
    { isLE := fun hxy hyz => by simp [h hxy hyz]
      lt_isLE := fun hxy hyz => h (by simp [hxy]) hyz
      isLE_lt := fun hxy hyz => h hxy (by simp [hyz]) }
  have hlexical : TransAt (compare : String → String → Ordering) x y z := transAt_of_transCmp x y z
  cases hx : parseU64 x with
  | none =>
    have hxy : compareSegments x y = compare x y := compareSegments_of_left_none hx
    have hxz : compareSegments x z = compare x z := compareSegments_of_left_none hx
    cases hy : parseU64 y with
    | none => exact hlexical.congr hxy (compareSegments_of_left_none hy) hxz
    | some n =>
      cases hz : parseU64 z with
      | none => exact hlexical.congr hxy (compareSegments_of_right_none hz) hxz
      | some p =>
        rw [hxy, hxz, compareSegments_of_some hy hz] at hstrict
        refine hstrict fun hle hle' => ?_
        have hlt := lt_of_isLE_of_parse_ne hle (by simp [hx, hy])
        by_contra hnot
        have hlt' := lt_of_not_lt_of_parse_ne hnot (by simp [hx, hz])
        exact hzxy ⟨hx, hlt', hlt, p, n, hz, hy, hle'⟩
  | some m =>
    cases hy : parseU64 y with
    | none =>
      have hxy : compareSegments x y = compare x y := compareSegments_of_right_none hy
      have hyz : compareSegments y z = compare y z := compareSegments_of_left_none hy
      cases hz : parseU64 z with
      | none => exact hlexical.congr hxy hyz (compareSegments_of_right_none hz)
      | some p =>
        rw [hxy, hyz, compareSegments_of_some hx hz] at hstrict
        refine hstrict fun hle hle' => ?_
        have hlt := lt_of_isLE_of_parse_ne hle (by simp [hx, hy])
        have hlt' := lt_of_isLE_of_parse_ne hle' (by simp [hy, hz])
        by_contra hnot
        refine hxyz ⟨hy, hlt, hlt', m, p, hx, hz, ?_⟩
        rw [Std.OrientedOrd.eq_swap (a := p)]
        cases hcompare : compare m p <;> simp_all
    | some n =>
      have hxy := compareSegments_of_some hx hy
      cases hz : parseU64 z with
      | none =>
        rw [hxy, compareSegments_of_right_none hz, compareSegments_of_right_none hz] at hstrict
        refine hstrict fun hle hle' => ?_
        have hlt' := lt_of_isLE_of_parse_ne hle' (by simp [hy, hz])
        by_contra hnot
        have hlt := lt_of_not_lt_of_parse_ne hnot (by simp [hx, hz])
        exact hyzx ⟨hz, hlt', hlt, n, m, hy, hx, hle⟩
      | some p =>
        have hnumeric : TransAt (compare : UInt64 → UInt64 → Ordering) m n p :=
          transAt_of_transCmp m n p
        exact hnumeric.congr hxy (compareSegments_of_some hy hz) (compareSegments_of_some hx hz)

/-! ### Versions -/

theorem compareImageVersions_of_visible {booted staged : String} (hbooted : isBlank booted = false)
    (hstaged : isBlank staged = false) :
    compareImageVersions booted staged =
      some (compareBy compareSegments (segments booted) (segments staged)) := by
  simp [compareImageVersions, hbooted, hstaged]

/-- The first version does not compare newer than the second. -/
def NotNewer (a b : String) : Prop := compareImageVersions a b ≠ some .gt

theorem notNewer_iff {a b : String} (ha : isBlank a = false) (hb : isBlank b = false) :
    NotNewer a b ↔ (compareBy compareSegments (segments a) (segments b)).isLE := by
  rw [NotNewer, compareImageVersions_of_visible ha hb, Ordering.isLE_iff_ne_gt]
  simp

theorem compareImageVersions_swap {a b : String} (ha : isBlank a = false) (hb : isBlank b = false) :
    compareImageVersions b a = (compareImageVersions a b).map Ordering.swap := by
  rw [compareImageVersions_of_visible hb ha, compareImageVersions_of_visible ha hb, Option.map_some,
    compareBy_swap compareSegments_swap]

/-- Among coherent versions the comparison is transitive. -/
theorem notNewer_trans {versions : List String} (h : Coherent versions)
    (hvisible : ∀ v ∈ versions, isBlank v = false) {a b c : String} (ha : a ∈ versions)
    (hb : b ∈ versions) (hc : c ∈ versions) (hab : NotNewer a b) (hbc : NotNewer b c) :
    NotNewer a c := by
  rw [notNewer_iff (hvisible a ha) (hvisible b hb)] at hab
  rw [notNewer_iff (hvisible b hb) (hvisible c hc)] at hbc
  rw [notNewer_iff (hvisible a ha) (hvisible c hc)]
  refine compareBy_trans (fun i x y z hx hy hz => ?_) hab hbc
  exact transAt_compareSegments (h a ha b hb c hc i x y z hx hy hz)
    (h b hb c hc a ha i y z x hy hz hx) (h c hc a ha b hb i z x y hz hx hy)

/-- An update from one image to the next that the gate accepts. -/
def Accepted (booted staged : String × String) : Prop :=
  booted.2 ≠ staged.2 ∧
    validateNotDowngrade (some booted.1) (some booted.2) (some staged.1) (some staged.2) false = .ok ()

theorem notNewer_of_accepted {booted staged : String × String} (h : Accepted booted staged) :
    NotNewer booted.1 staged.1 := by
  obtain ⟨hdigest, haccepted⟩ := h
  intro hnewer
  simp [validateNotDowngrade, hnewer, hdigest] at haccepted

theorem notNewer_refl {a : String} (ha : isBlank a = false) : NotNewer a a := by
  intro hnewer
  have hswap := compareImageVersions_swap ha ha
  rw [hnewer] at hswap
  simp at hswap

/-- The last image of an accepted chain does not compare older than the first. -/
theorem notNewer_getLast {first : String × String} {rest : List (String × String)}
    (hchain : (first :: rest).IsChain Accepted) {versions : List String} (hcoherent : Coherent versions)
    (hvisible : ∀ v ∈ versions, isBlank v = false)
    (hmem : ∀ image ∈ first :: rest, image.1 ∈ versions) :
    NotNewer first.1 ((first :: rest).getLast (List.cons_ne_nil _ _)).1 := by
  induction rest generalizing first with
  | nil => exact notNewer_refl (hvisible _ (hmem first List.mem_cons_self))
  | cons next rest ih =>
    rw [List.isChain_cons_cons] at hchain
    have hlast := ih hchain.2 fun image himage => hmem image (List.mem_cons_of_mem _ himage)
    rw [List.getLast_cons (List.cons_ne_nil _ _)]
    refine notNewer_trans hcoherent hvisible (hmem first (by simp)) (hmem next (by simp)) ?_
      (notNewer_of_accepted hchain.1) hlast
    exact hmem _ (List.mem_cons_of_mem _ (List.getLast_mem _))

/-- The comparison is reversed by swapping its arguments; among coherent versions it is transitive,
and the last image of an accepted chain does not compare older than the first. -/
theorem version_order {first : String × String} {rest : List (String × String)}
    (hvisible : ∀ v ∈ (first :: rest).map Prod.fst, isBlank v = false)
    (hcoherent : Coherent ((first :: rest).map Prod.fst)) :
    (∀ a b, isBlank a = false → isBlank b = false →
      compareImageVersions b a = (compareImageVersions a b).map Ordering.swap) ∧
    (∀ a ∈ (first :: rest).map Prod.fst, ∀ b ∈ (first :: rest).map Prod.fst,
      ∀ c ∈ (first :: rest).map Prod.fst, NotNewer a b → NotNewer b c → NotNewer a c) ∧
    ((first :: rest).IsChain Accepted →
      NotNewer first.1 ((first :: rest).getLast (List.cons_ne_nil _ _)).1) := by
  refine ⟨fun a b => compareImageVersions_swap, fun a ha b hb c hc => ?_, fun hchain => ?_⟩
  · exact notNewer_trans hcoherent hvisible ha hb hc
  · exact notNewer_getLast hchain hcoherent hvisible fun image himage =>
      List.mem_map_of_mem himage

/-- Versions made of numbers are coherent. -/
theorem coherent_of_numeric {versions : List String}
    (h : ∀ v ∈ versions, ∀ segment ∈ segments v, parseU64 segment ≠ none) : Coherent versions := by
  intro a _ b hb c _ i x y z _ hy _ hstraddles
  exact h b hb y (List.mem_of_getElem? hy) hstraddles.1

theorem version_order_numeric :
    NotNewer "44.9" "44.10" := by
  have hcoherent : Coherent ([("44.9", "sha256:a"), ("44.10", "sha256:b")].map Prod.fst) :=
    coherent_of_numeric (by decide)
  refine (version_order (by decide) hcoherent).2.2 ?_
  rw [List.isChain_cons_cons]
  exact ⟨by unfold Accepted; decide, List.isChain_singleton _⟩

/-- Two accepted updates lead from `10` to `9`. -/
theorem mixed_segments_cycle :
    Accepted ("10", "sha256:a") ("1a", "sha256:b") ∧ Accepted ("1a", "sha256:b") ("9", "sha256:c") ∧
      compareImageVersions "10" "9" = some .gt := by
  unfold Accepted
  decide

end Kyth.Upgrade
