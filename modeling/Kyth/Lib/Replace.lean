import Kyth.Lib.Edits
import Kyth.Lib.Regex

/-!
# Replacing every match

A rule is a pattern in two parts: what the first one matches stays, and something is written for what
the second one matches behind it. `replaceAll` does this to the matches of a text from left to right.
`Replaced` is what it computes without the bound on its steps, and `Replaced.edited` forgets where the
matches are and keeps what was written for what.
-/

namespace Kyth.Regex

open Edits

/-- A pattern whose match stays, a pattern whose match behind it goes, and what is written for it. -/
structure Rule where
  keep : Pattern
  drop : Pattern
  write : List Char → List Char

/-- A match of a rule, and the text behind it. -/
structure Found where
  kept : List Char
  dropped : List Char
  rest : List Char

variable {isWord : Char → Bool} {rule : Rule} {prev : Option Char} {s t : List Char} {f : Found}

/-- The match of a rule at the beginning of a text. -/
def Rule.find (isWord : Char → Bool) (rule : Rule) (prev : Option Char) (s : List Char) : Option Found :=
  run isWord rule.keep prev s fun prev' behind => run isWord rule.drop prev' behind fun _ rest =>
    some ⟨s.take (s.length - behind.length), behind.take (behind.length - rest.length), rest⟩

/-- The first character stays, and `go` goes on behind it. -/
def keepOne (go : Option Char → List Char → List Char) : List Char → List Char
  | [] => []
  | c :: s => c :: go (some c) s

/-- The text with its matches replaced, in a number of steps. `behind` says that a match ends where the
text begins; an empty match is none there. -/
def replaceFrom (isWord : Char → Bool) (rule : Rule) : ℕ → Bool → Option Char → List Char → List Char
  | 0, _, _, s => s
  | n + 1, behind, prev, s =>
      match rule.find isWord prev s with
      | none => keepOne (replaceFrom isWord rule n false) s
      | some f =>
          if (f.kept ++ f.dropped).isEmpty then
            if behind then keepOne (replaceFrom isWord rule n false) s
            else rule.write f.dropped ++ keepOne (replaceFrom isWord rule n false) s
          else
            f.kept ++ (rule.write f.dropped ++
              replaceFrom isWord rule n true (lastOf prev (f.kept ++ f.dropped)) f.rest)

/-- The text with every match of a rule replaced. -/
def replaceAll (isWord : Char → Bool) (rule : Rule) (text : List Char) : List Char :=
  replaceFrom isWord rule (text.length + 1) false none text

/-- A text behind `prev` and what replacing makes of it. -/
inductive Replaced (isWord : Char → Bool) (rule : Rule) : Option Char → List Char → List Char → Prop
  | nil {prev : Option Char} : Replaced isWord rule prev [] []
  | keep {prev : Option Char} {c : Char} {s t : List Char}
      (hnone : ∀ f, rule.find isWord prev (c :: s) = some f → f.kept ++ f.dropped = [])
      (h : Replaced isWord rule (some c) s t) : Replaced isWord rule prev (c :: s) (c :: t)
  | found {prev : Option Char} {s : List Char} {f : Found} {t : List Char}
      (hfind : rule.find isWord prev s = some f)
      (h : Replaced isWord rule (lastOf prev (f.kept ++ f.dropped)) f.rest t) :
      Replaced isWord rule prev s (f.kept ++ (rule.write f.dropped ++ t))

theorem Rule.find_eq_some (h : rule.find isWord prev s = some f) :
    s = f.kept ++ (f.dropped ++ f.rest) ∧
      Matches isWord rule.keep prev f.kept (f.dropped ++ f.rest) ∧
      Matches isWord rule.drop (lastOf prev f.kept) f.dropped f.rest := by
  obtain ⟨kept, behind, rfl, hkept, h⟩ := run_sound h
  obtain ⟨dropped, rest, rfl, hdropped, h⟩ := run_sound h
  cases h
  have hkeptTake : (kept ++ (dropped ++ rest)).take
      ((kept ++ (dropped ++ rest)).length - (dropped ++ rest).length) = kept := by
    rw [List.length_append, Nat.add_sub_cancel, List.take_left]
  have hdroppedTake : (dropped ++ rest).take ((dropped ++ rest).length - rest.length) = dropped := by
    rw [List.length_append, Nat.add_sub_cancel, List.take_left]
  simp only [hkeptTake, hdroppedTake]
  exact ⟨trivial, hkept, hdropped⟩

theorem Rule.find_isSome {kept dropped rest : List Char}
    (hkept : Matches isWord rule.keep prev kept (dropped ++ rest))
    (hdropped : Matches isWord rule.drop (lastOf prev kept) dropped rest) :
    (rule.find isWord prev (kept ++ (dropped ++ rest))).isSome :=
  run_isSome hkept (run_isSome hdropped rfl)

theorem Rule.kept_eq_nil (hkeep : rule.keep = .empty) (h : rule.find isWord prev s = some f) :
    f.kept = [] := by
  obtain ⟨-, hkept, -⟩ := Rule.find_eq_some h
  rw [hkeep] at hkept
  generalize hnil : f.kept = kept at hkept
  cases hkept
  rfl

/-- Behind a rule that ends with a repetition of characters, none of them follows. -/
theorem Rule.rest_of_plus {patterns : List Pattern} {p : Char → Bool}
    (hdrop : rule.drop = .all (patterns ++ [.plus (.chars p)])) (h : rule.find isWord prev s = some f) :
    ∀ c ∈ f.rest.head?, p c = false := by
  obtain ⟨kept, behind, -, -, h⟩ := run_sound h
  rw [hdrop] at h
  obtain ⟨prev', s', h⟩ := run_all_last h
  obtain ⟨rest, rfl, hrest⟩ := run_plus_chars h
  exact hrest

theorem replaceFrom_replaced {n : ℕ} {behind : Bool} (hn : s.length < n) :
    Replaced isWord rule prev s (replaceFrom isWord rule n behind prev s) := by
  induction n generalizing behind prev s with
  | zero => exact absurd hn (Nat.not_lt_zero _)
  | succ n ih =>
    have hnext : (∀ f, rule.find isWord prev s = some f → f.kept ++ f.dropped = []) →
        Replaced isWord rule prev s (keepOne (replaceFrom isWord rule n false) s) := by
      intro hnone
      cases s with
      | nil => exact .nil
      | cons c s => exact .keep hnone (ih (by simpa using hn))
    rw [replaceFrom]
    cases hfind : rule.find isWord prev s with
    | none => exact hnext fun f hf => by rw [hfind] at hf; cases hf
    | some f =>
      obtain ⟨hs, -, -⟩ := Rule.find_eq_some hfind
      have hfound : ∀ g, rule.find isWord prev s = some g → g = f := by
        intro g hg
        rw [hfind] at hg
        exact (Option.some.inj hg).symm
      simp only
      split_ifs with hempty hbehind
      · exact hnext fun g hg => hfound g hg ▸ List.isEmpty_iff.1 hempty
      · rw [List.isEmpty_iff] at hempty
        obtain ⟨hkept, hdropped⟩ := List.append_eq_nil_iff.1 hempty
        have hrest : f.rest = s := by rw [hs, hkept, hdropped]; rfl
        have hstep := hnext fun g hg => hfound g hg ▸ hempty
        have hreplaced := Replaced.found hfind (t := keepOne (replaceFrom isWord rule n false) s)
          (by rwa [hempty, lastOf_nil, hrest])
        rwa [hkept, List.nil_append] at hreplaced
      · refine .found hfind (ih ?_)
        have hpos : 0 < (f.kept ++ f.dropped).length :=
          List.length_pos_iff.2 fun hnil => hempty (List.isEmpty_iff.2 hnil)
        rw [← List.append_assoc] at hs
        rw [hs, List.length_append] at hn
        omega

theorem replaceAll_replaced (isWord : Char → Bool) (rule : Rule) (text : List Char) :
    Replaced isWord rule none text (replaceAll isWord rule text) :=
  replaceFrom_replaced (Nat.lt_succ_self _)

/-- What a rule writes is what it found, or an edit. -/
theorem Replaced.edited {E : List Char → List Char → List Char → Prop}
    (hE : ∀ prev s f, rule.find isWord prev s = some f →
      rule.write f.dropped = f.dropped ∨ E f.dropped (rule.write f.dropped) f.rest)
    (h : Replaced isWord rule prev s t) : Edited E s t := by
  induction h with
  | nil => exact .nil
  | keep _ _ ih => exact .keep _ ih
  | found hfind _ ih =>
    rw [(Rule.find_eq_some hfind).1]
    refine Edited.keepAll _ ?_
    rcases hE _ _ _ hfind with heq | hedit
    · rw [heq]
      exact Edited.keepAll _ ih
    · exact .edit hedit ih

/-- A word goes from a text if the rule does not leave it where it begins. `P` is what is known of the
places where it occurs: `P prev rest` behind `prev` and in front of `rest`. A match that is written as
it was must not begin in front of such a place. -/
theorem Replaced.not_infix {E : List Char → List Char → List Char → Prop} {inside : Char → Prop}
    {word : List Char} {P : Option Char → List Char → Prop}
    (hword : ∀ a ∈ word, inside a) (hkeep : rule.keep = .empty)
    (hharmless : ∀ drop written rest, E drop written rest → Harmless inside word drop written rest)
    (hE : ∀ prev s f, rule.find isWord prev s = some f →
      (rule.write f.dropped = f.dropped ∧ ∀ c ∈ f.dropped, ∀ rest, ¬ P (some c) rest) ∨
        E f.dropped (rule.write f.dropped) f.rest)
    (hstart : ∀ prev rest rest', P prev rest →
      ¬ Replaced isWord rule prev (word ++ rest) (word ++ rest'))
    (h : Replaced isWord rule prev s t)
    (hP : ∀ before behind, s = before ++ (word ++ behind) → P (lastOf prev before) behind) :
    ¬ word <:+: t := by
  have hedit : ∀ prev s f, rule.find isWord prev s = some f →
      rule.write f.dropped = f.dropped ∨ E f.dropped (rule.write f.dropped) f.rest :=
    fun prev s f hf => (hE prev s f hf).imp_left And.left
  have hbegin : ∀ {prev s} behind, Replaced isWord rule prev s (word ++ behind) →
      ¬ ∀ before behind, s = before ++ (word ++ behind) → P (lastOf prev before) behind := by
    intro prev s behind hs hP
    obtain ⟨behind', rfl, -⟩ := (hs.edited hedit).exists_of_append hharmless hword
    exact hstart _ _ _ (hP [] behind' rfl) hs
  rintro ⟨before, behind, ht⟩
  rw [List.append_assoc] at ht
  induction h generalizing before with
  | nil =>
    obtain ⟨rfl, hnil⟩ := List.append_eq_nil_iff.1 ht
    exact hbegin behind (by rw [hnil]; exact .nil) hP
  | @keep prev c s t hnone h ih =>
    cases before with
    | nil => exact hbegin behind (ht ▸ .keep hnone h) hP
    | cons b before =>
      cases ht
      refine ih (fun before behind hs => ?_) before rfl
      have hcons := hP (c :: before) behind (by rw [hs]; rfl)
      rwa [← List.singleton_append, lastOf_append] at hcons
  | @found prev s f t hfind h ih =>
    obtain ⟨hs, -, -⟩ := Rule.find_eq_some hfind
    have hkept := Rule.kept_eq_nil hkeep hfind
    have hPrest : ∀ before behind, f.rest = before ++ (word ++ behind) →
        P (lastOf (lastOf prev (f.kept ++ f.dropped)) before) behind := by
      intro before behind hrest
      rw [← lastOf_append]
      exact hP _ _ (by rw [hs, hrest]; simp only [List.append_assoc])
    rw [hkept, List.nil_append] at ht hs
    rcases hE _ _ _ hfind with ⟨hsame, hunchanged⟩ | he
    · rw [hsame] at ht
      rcases List.append_eq_append_iff.1 ht with ⟨common, hdropped, hcommon⟩ | ⟨gap, -, hgap⟩
      · have hedited : Edited E (common ++ f.rest) (word ++ behind) :=
          hcommon ▸ Edited.keepAll common (h.edited hedit)
        obtain ⟨behind', hbehind, -⟩ := hedited.exists_of_append hharmless hword
        have hplace := hP before behind' (by rw [hs, hdropped, List.append_assoc, hbehind])
        rcases List.eq_nil_or_concat before with rfl | ⟨init, b, rfl⟩
        · refine hbegin behind ?_ hP
          have hfound := Replaced.found hfind h
          rwa [hkept, List.nil_append, hsame, ← ht] at hfound
        · refine hunchanged b ?_ behind' ?_
          · rw [hdropped]; simp
          · rwa [List.concat_eq_append, lastOf_append] at hplace
      · exact ih hPrest gap hgap.symm
    · obtain ⟨gap, -, hgap⟩ := (h.edited hedit).behind_written hharmless hword he ht.symm
      exact ih hPrest gap hgap.symm

end Kyth.Regex
