import Mathlib.Tactic

/-!
# Regular expressions with a preferred match

A pattern is tried from left to right: the first alternative first, a greedy repetition as often as it
goes, a lazy one as seldom. `run` is that search, with a continuation for what has to match behind the
pattern, and returns what the continuation returns on the preferred match for which it returns
something. `Matches` says which texts a pattern matches at all; `run_sound` and `run_isSome` connect
the two.
-/

namespace Kyth.Regex

/-- A pattern. -/
inductive Pattern
  | empty
  | chars (p : Char → Bool)
  | seq (r s : Pattern)
  | alt (r s : Pattern)
  | star (r : Pattern)
  | lazy (r : Pattern)
  /-- A position between a word character and none. -/
  | wordEdge

namespace Pattern

/-- `r?` -/
def opt (r : Pattern) : Pattern := alt r empty

/-- `r+` -/
def plus (r : Pattern) : Pattern := seq r (star r)

/-- `r{n}` -/
def times : ℕ → Pattern → Pattern
  | 0, _ => empty
  | n + 1, r => seq r (times n r)

/-- `r{0,n}` -/
def upTo : ℕ → Pattern → Pattern
  | 0, _ => empty
  | n + 1, r => opt (seq r (upTo n r))

/-- One pattern behind the other. -/
def all : List Pattern → Pattern
  | [] => empty
  | [r] => r
  | r :: rs => seq r (all rs)

/-- The alternatives of a list, the first one first. -/
def oneOf : List Pattern → Pattern
  | [] => chars fun _ => false
  | [r] => r
  | r :: rs => alt r (oneOf rs)

/-- A text as it stands. -/
def literal (text : List Char) : Pattern := all (text.map fun c => chars (· == c))

end Pattern

variable {β : Type*}

/-- The rounds of a greedy repetition. A round that matches nothing is none. -/
def starRun (body : Option Char → List Char → (Option Char → List Char → Option β) → Option β)
    (next : Option Char → List Char → Option β) : ℕ → Option Char → List Char → Option β
  | 0, prev, s => next prev s
  | n + 1, prev, s =>
      (body prev s fun prev' s' => if s'.length < s.length then starRun body next n prev' s' else none)
        |>.orElse fun _ => next prev s

/-- The rounds of a lazy repetition. -/
def lazyRun (body : Option Char → List Char → (Option Char → List Char → Option β) → Option β)
    (next : Option Char → List Char → Option β) : ℕ → Option Char → List Char → Option β
  | 0, prev, s => next prev s
  | n + 1, prev, s => (next prev s).orElse fun _ =>
      body prev s fun prev' s' => if s'.length < s.length then lazyRun body next n prev' s' else none

/-- The search for the preferred match of a pattern, where `prev` is the character in front of the text
and `next` goes on behind the pattern. -/
def run (isWord : Char → Bool) : Pattern → Option Char → List Char →
    (Option Char → List Char → Option β) → Option β
  | .empty, prev, s, next => next prev s
  | .chars _, _, [], _ => none
  | .chars p, _, c :: s, next => if p c then next (some c) s else none
  | .seq r t, prev, s, next => run isWord r prev s fun prev' s' => run isWord t prev' s' next
  | .alt r t, prev, s, next => (run isWord r prev s next).orElse fun _ => run isWord t prev s next
  | .star r, prev, s, next => starRun (run isWord r) next s.length prev s
  | .lazy r, prev, s, next => lazyRun (run isWord r) next s.length prev s
  | .wordEdge, prev, s, next =>
      if prev.any isWord != s.head?.any isWord then next prev s else none

/-- The last character of a text that stands behind another one. -/
def lastOf (prev : Option Char) (m : List Char) : Option Char := m.getLast?.or prev

/-- A pattern matches a text behind `prev` and in front of `rest`. -/
inductive Matches (isWord : Char → Bool) : Pattern → Option Char → List Char → List Char → Prop
  | empty {prev rest} : Matches isWord .empty prev [] rest
  | chars {p : Char → Bool} {prev c rest} (h : p c = true) : Matches isWord (.chars p) prev [c] rest
  | seq {r t prev m n rest} (h : Matches isWord r prev m (n ++ rest))
      (h' : Matches isWord t (lastOf prev m) n rest) : Matches isWord (.seq r t) prev (m ++ n) rest
  | altLeft {r t prev m rest} (h : Matches isWord r prev m rest) : Matches isWord (.alt r t) prev m rest
  | altRight {r t prev m rest} (h : Matches isWord t prev m rest) : Matches isWord (.alt r t) prev m rest
  | starNil {r prev rest} : Matches isWord (.star r) prev [] rest
  | starCons {r prev m n rest} (hne : m ≠ []) (h : Matches isWord r prev m (n ++ rest))
      (h' : Matches isWord (.star r) (lastOf prev m) n rest) :
      Matches isWord (.star r) prev (m ++ n) rest
  | lazyNil {r prev rest} : Matches isWord (.lazy r) prev [] rest
  | lazyCons {r prev m n rest} (hne : m ≠ []) (h : Matches isWord r prev m (n ++ rest))
      (h' : Matches isWord (.lazy r) (lastOf prev m) n rest) :
      Matches isWord (.lazy r) prev (m ++ n) rest
  | wordEdge {prev rest} (h : prev.any isWord ≠ rest.head?.any isWord) :
      Matches isWord .wordEdge prev [] rest

variable {isWord : Char → Bool} {r t : Pattern} {prev : Option Char} {s m n rest : List Char}
  {next : Option Char → List Char → Option β} {b : β}

@[simp] theorem lastOf_nil (prev : Option Char) : lastOf prev [] = prev := rfl

theorem lastOf_append (prev : Option Char) (m n : List Char) :
    lastOf prev (m ++ n) = lastOf (lastOf prev m) n := by
  unfold lastOf
  rw [List.getLast?_append, Option.or_assoc]

/-! The equations of the search. -/

section Equations

variable {body : Option Char → List Char → (Option Char → List Char → Option β) → Option β} {rounds : ℕ}

theorem run_chars_cons (p : Char → Bool) (c : Char) :
    run isWord (.chars p) prev (c :: s) next = if p c then next (some c) s else none := rfl

theorem run_seq : run isWord (.seq r t) prev s next =
    run isWord r prev s fun prev' s' => run isWord t prev' s' next := rfl

theorem run_alt : run isWord (.alt r t) prev s next =
    (run isWord r prev s next).or (run isWord t prev s next) := Option.orElse_eq_or

theorem run_wordEdge : run isWord .wordEdge prev s next =
    if prev.any isWord != s.head?.any isWord then next prev s else none := rfl

/-- A round of a greedy repetition comes before its end. -/
theorem starRun_succ : starRun body next (rounds + 1) prev s =
    (body prev s fun prev' s' => if s'.length < s.length then starRun body next rounds prev' s' else none).or
      (next prev s) := Option.orElse_eq_or

/-- The end of a lazy repetition comes before another round. -/
theorem lazyRun_succ : lazyRun body next (rounds + 1) prev s =
    (next prev s).or
      (body prev s fun prev' s' => if s'.length < s.length then lazyRun body next rounds prev' s' else none) :=
  Option.orElse_eq_or

end Equations

/-- What the search returns is what it goes on with behind a match. -/
theorem run_sound (h : run isWord r prev s next = some b) :
    ∃ m rest, s = m ++ rest ∧ Matches isWord r prev m rest ∧ next (lastOf prev m) rest = some b := by
  induction r generalizing prev s next with
  | empty => exact ⟨[], s, rfl, .empty, h⟩
  | chars p =>
    cases s with
    | nil => cases h
    | cons c s =>
      rw [run_chars_cons] at h
      split_ifs at h with hc
      exact ⟨[c], s, rfl, .chars hc, h⟩
  | seq r t ihr iht =>
    rw [run_seq] at h
    obtain ⟨m, rest, rfl, hm, hrest⟩ := ihr h
    obtain ⟨n, rest, rfl, hn, hnext⟩ := iht hrest
    exact ⟨m ++ n, rest, (List.append_assoc _ _ _).symm, .seq hm hn, by rwa [lastOf_append]⟩
  | alt r t ihr iht =>
    rw [run_alt, Option.or_eq_some_iff] at h
    rcases h with h | ⟨-, h⟩
    · obtain ⟨m, rest, rfl, hm, hnext⟩ := ihr h
      exact ⟨m, rest, rfl, .altLeft hm, hnext⟩
    · obtain ⟨m, rest, rfl, hm, hnext⟩ := iht h
      exact ⟨m, rest, rfl, .altRight hm, hnext⟩
  | star r ih =>
    have hround : ∀ n prev s, starRun (run isWord r) next n prev s = some b →
        ∃ m rest, s = m ++ rest ∧ Matches isWord (.star r) prev m rest ∧
          next (lastOf prev m) rest = some b := by
      intro n
      induction n with
      | zero => exact fun prev s h => ⟨[], s, rfl, .starNil, h⟩
      | succ n ihn =>
        intro prev s h
        rw [starRun_succ, Option.or_eq_some_iff] at h
        rcases h with h | ⟨-, h⟩
        · obtain ⟨m, rest, rfl, hm, hrest⟩ := ih h
          split_ifs at hrest with hlt
          obtain ⟨n', rest, rfl, hn, hnext⟩ := ihn _ _ hrest
          have hne : m ≠ [] := by
            rintro rfl
            exact lt_irrefl _ hlt
          exact ⟨m ++ n', rest, (List.append_assoc _ _ _).symm, .starCons hne hm hn,
            by rwa [lastOf_append]⟩
        · exact ⟨[], s, rfl, .starNil, h⟩
    exact hround _ _ _ h
  | lazy r ih =>
    have hround : ∀ n prev s, lazyRun (run isWord r) next n prev s = some b →
        ∃ m rest, s = m ++ rest ∧ Matches isWord (.lazy r) prev m rest ∧
          next (lastOf prev m) rest = some b := by
      intro n
      induction n with
      | zero => exact fun prev s h => ⟨[], s, rfl, .lazyNil, h⟩
      | succ n ihn =>
        intro prev s h
        rw [lazyRun_succ, Option.or_eq_some_iff] at h
        rcases h with h | ⟨-, h⟩
        · exact ⟨[], s, rfl, .lazyNil, h⟩
        · obtain ⟨m, rest, rfl, hm, hrest⟩ := ih h
          split_ifs at hrest with hlt
          obtain ⟨n', rest, rfl, hn, hnext⟩ := ihn _ _ hrest
          have hne : m ≠ [] := by
            rintro rfl
            exact lt_irrefl _ hlt
          exact ⟨m ++ n', rest, (List.append_assoc _ _ _).symm, .lazyCons hne hm hn,
            by rwa [lastOf_append]⟩
    exact hround _ _ _ h
  | wordEdge =>
    rw [run_wordEdge] at h
    split_ifs at h with hedge
    exact ⟨[], s, rfl, .wordEdge (by simpa using hedge), h⟩

/-- The search, where a repetition at the root has the given number of rounds. -/
def roundsRun (isWord : Char → Bool) (r : Pattern) (next : Option Char → List Char → Option β)
    (rounds : ℕ) (prev : Option Char) (s : List Char) : Option β :=
  match r with
  | .star q => starRun (run isWord q) next rounds prev s
  | .lazy q => lazyRun (run isWord q) next rounds prev s
  | r => run isWord r prev s next

theorem roundsRun_length (r : Pattern) (prev : Option Char) (s : List Char) :
    roundsRun isWord r next s.length prev s = run isWord r prev s next := by
  cases r <;> rfl

/-- Where a pattern matches, the search returns something if `next` does behind the match, with more
rounds for a repetition than it needs too. -/
theorem roundsRun_isSome (h : Matches isWord r prev m rest)
    (hnext : (next (lastOf prev m) rest).isSome) {rounds : ℕ} (hrounds : (m ++ rest).length ≤ rounds) :
    (roundsRun isWord r next rounds prev (m ++ rest)).isSome := by
  induction h generalizing next rounds with
  | empty => exact hnext
  | chars hc =>
    change (run isWord _ _ _ next).isSome
    rw [List.singleton_append, run_chars_cons, if_pos hc]
    exact hnext
  | seq h h' ih ih' =>
    rw [lastOf_append] at hnext
    have htail := ih' hnext le_rfl
    rw [roundsRun_length] at htail
    change (run isWord _ _ _ next).isSome
    rw [run_seq, List.append_assoc, ← roundsRun_length]
    exact ih htail le_rfl
  | altLeft h ih =>
    have hleft := ih hnext le_rfl
    rw [roundsRun_length] at hleft
    change (run isWord _ _ _ next).isSome
    rw [run_alt, Option.isSome_or, hleft, Bool.true_or]
  | altRight h ih =>
    have hright := ih hnext le_rfl
    rw [roundsRun_length] at hright
    change (run isWord _ _ _ next).isSome
    rw [run_alt, Option.isSome_or, hright, Bool.or_true]
  | starNil =>
    cases rounds with
    | zero => exact hnext
    | succ rounds =>
      change (starRun _ next (rounds + 1) _ _).isSome
      rw [starRun_succ, Option.isSome_or]
      exact (Bool.or_eq_true _ _).mpr (.inr hnext)
  | @starCons r prev m n rest hne h h' ih ih' =>
    have hpos := List.length_pos_iff.2 hne
    rw [lastOf_append] at hnext
    rw [List.append_assoc, List.length_append] at hrounds
    obtain ⟨rounds, rfl⟩ := Nat.exists_eq_succ_of_ne_zero (n := rounds) (by omega)
    have htail : (starRun (run isWord r) next rounds (lastOf prev m) (n ++ rest)).isSome :=
      ih' hnext (by omega)
    have hhead : (run isWord r prev (m ++ (n ++ rest)) fun prev' s' =>
        if s'.length < (m ++ (n ++ rest)).length then starRun (run isWord r) next rounds prev' s'
        else none).isSome := by
      rw [← roundsRun_length]
      refine ih ?_ le_rfl
      have hlt : (n ++ rest).length < (m ++ (n ++ rest)).length := by
        simp only [List.length_append] at hpos ⊢
        omega
      rw [if_pos hlt]
      exact htail
    change (starRun _ next (rounds + 1) _ _).isSome
    rw [List.append_assoc, starRun_succ, Option.isSome_or, hhead, Bool.true_or]
  | lazyNil =>
    cases rounds with
    | zero => exact hnext
    | succ rounds =>
      change (lazyRun _ next (rounds + 1) _ _).isSome
      rw [lazyRun_succ, Option.isSome_or]
      exact (Bool.or_eq_true _ _).mpr (.inl hnext)
  | @lazyCons r prev m n rest hne h h' ih ih' =>
    have hpos := List.length_pos_iff.2 hne
    rw [lastOf_append] at hnext
    rw [List.append_assoc, List.length_append] at hrounds
    obtain ⟨rounds, rfl⟩ := Nat.exists_eq_succ_of_ne_zero (n := rounds) (by omega)
    have htail : (lazyRun (run isWord r) next rounds (lastOf prev m) (n ++ rest)).isSome :=
      ih' hnext (by omega)
    have hhead : (run isWord r prev (m ++ (n ++ rest)) fun prev' s' =>
        if s'.length < (m ++ (n ++ rest)).length then lazyRun (run isWord r) next rounds prev' s'
        else none).isSome := by
      rw [← roundsRun_length]
      refine ih ?_ le_rfl
      have hlt : (n ++ rest).length < (m ++ (n ++ rest)).length := by
        simp only [List.length_append] at hpos ⊢
        omega
      rw [if_pos hlt]
      exact htail
    change (lazyRun _ next (rounds + 1) _ _).isSome
    rw [List.append_assoc, lazyRun_succ, Option.isSome_or, hhead, Bool.or_true]
  | wordEdge hedge =>
    change (run isWord _ _ _ next).isSome
    rw [List.nil_append, run_wordEdge, if_pos (by simpa using hedge)]
    exact hnext

theorem run_isSome (h : Matches isWord r prev m rest) (hnext : (next (lastOf prev m) rest).isSome) :
    (run isWord r prev (m ++ rest) next).isSome := by
  rw [← roundsRun_length]
  exact roundsRun_isSome h hnext le_rfl

/-! ### Repetitions of characters -/

/-- A greedy repetition of characters that goes on to what accepts everything takes all there are. -/
theorem run_star_chars {p : Char → Bool}
    (hnext : (next (lastOf prev (s.takeWhile p)) (s.dropWhile p)).isSome) :
    run isWord (.star (.chars p)) prev s next =
      next (lastOf prev (s.takeWhile p)) (s.dropWhile p) := by
  have hrounds : ∀ rounds ≥ s.length,
      starRun (run isWord (.chars p)) next rounds prev s =
        next (lastOf prev (s.takeWhile p)) (s.dropWhile p) := by
    induction s generalizing prev with
    | nil =>
      intro rounds _
      cases rounds with
      | zero => rfl
      | succ rounds => rw [starRun_succ]; rfl
    | cons c s ih =>
      intro rounds hle
      obtain ⟨rounds, rfl⟩ := Nat.exists_eq_succ_of_ne_zero (n := rounds) (by simp at hle; omega)
      rw [starRun_succ, run_chars_cons]
      cases hc : p c with
      | false =>
        rw [List.takeWhile_cons_of_neg (by simp [hc]), List.dropWhile_cons_of_neg (by simp [hc])]
        rfl
      | true =>
        rw [List.takeWhile_cons_of_pos hc, List.dropWhile_cons_of_pos hc] at hnext ⊢
        have hlast : lastOf prev (c :: s.takeWhile p) = lastOf (some c) (s.takeWhile p) :=
          lastOf_append prev [c] _
        rw [hlast] at hnext ⊢
        have hrest := ih hnext rounds (by simp at hle; omega)
        rw [if_pos rfl, if_pos (by simp), hrest, Option.or_of_isSome hnext]
  exact hrounds _ le_rfl

/-- A greedy repetition of characters takes all there are, too, if it could not stop in front of one. -/
theorem run_star_chars_of_stop {p : Char → Bool}
    (hstop : ∀ prev c s, p c = true → next prev (c :: s) = none) :
    run isWord (.star (.chars p)) prev s next =
      next (lastOf prev (s.takeWhile p)) (s.dropWhile p) := by
  have hrounds : ∀ rounds ≥ s.length,
      starRun (run isWord (.chars p)) next rounds prev s =
        next (lastOf prev (s.takeWhile p)) (s.dropWhile p) := by
    induction s generalizing prev with
    | nil =>
      intro rounds _
      cases rounds with
      | zero => rfl
      | succ rounds => rw [starRun_succ]; rfl
    | cons c s ih =>
      intro rounds hle
      obtain ⟨rounds, rfl⟩ := Nat.exists_eq_succ_of_ne_zero (n := rounds) (by simp at hle; omega)
      rw [starRun_succ, run_chars_cons]
      cases hc : p c with
      | false =>
        rw [List.takeWhile_cons_of_neg (by simp [hc]), List.dropWhile_cons_of_neg (by simp [hc])]
        rfl
      | true =>
        have hrest := @ih (some c) rounds (by simp at hle; omega)
        have hlast : lastOf prev (c :: s.takeWhile p) = lastOf (some c) (s.takeWhile p) :=
          lastOf_append prev [c] _
        rw [List.takeWhile_cons_of_pos hc, List.dropWhile_cons_of_pos hc, if_pos rfl,
          if_pos (by simp), hrest, hstop prev c s hc, hlast, Option.or_none]
  exact hrounds _ le_rfl

/-- What a search finds behind a list of patterns, it finds behind the last one. -/
theorem run_all_last {patterns : List Pattern}
    (h : run isWord (.all (patterns ++ [r])) prev s next = some b) :
    ∃ prev' s', run isWord r prev' s' next = some b := by
  induction patterns generalizing prev s with
  | nil => exact ⟨prev, s, h⟩
  | cons t patterns ih =>
    have hall : Pattern.all (t :: patterns ++ [r]) = .seq t (.all (patterns ++ [r])) := by
      cases patterns <;> rfl
    rw [hall, run_seq] at h
    obtain ⟨m, rest, -, -, h⟩ := run_sound h
    exact ih h

/-- A repetition of characters at the end leaves none of them in front of the text behind it. -/
theorem run_plus_chars {p : Char → Bool} {g : List Char → β}
    (h : run isWord (.plus (.chars p)) prev s (fun _ rest => some (g rest)) = some b) :
    ∃ rest, b = g rest ∧ ∀ c ∈ rest.head?, p c = false := by
  rw [Pattern.plus, run_seq] at h
  obtain ⟨m, s', -, -, h⟩ := run_sound h
  rw [run_star_chars rfl, Option.some.injEq] at h
  refine ⟨s'.dropWhile p, h.symm, fun c hc => ?_⟩
  exact Bool.eq_false_iff.2 fun hp => by
    have hnot := List.head?_dropWhile_not p s'
    rw [hc] at hnot
    simp [hp] at hnot

/-! ### The characters of a match -/

/-- What the first character of a match is one of, if the pattern says so at its beginning. -/
def Pattern.first : Pattern → Option (Char → Bool)
  | .chars p => some p
  | .seq .wordEdge t => t.first
  | .seq r _ => r.first
  | _ => none

theorem Matches.exists_head {p : Char → Bool} (h : Matches isWord r prev m rest) (hfirst : r.first = some p) :
    ∃ c ∈ m.head?, p c = true := by
  induction h with
  | chars hc =>
    cases hfirst
    exact ⟨_, rfl, hc⟩
  | @seq r t prev m n rest h h' ih ih' =>
    by_cases hedge : r = .wordEdge
    · subst hedge
      cases h
      exact ih' hfirst
    · have hr : (Pattern.seq r t).first = r.first := by
        cases r <;> first | rfl | exact absurd rfl hedge
      obtain ⟨c, hc, hpc⟩ := ih (hr ▸ hfirst)
      refine ⟨c, ?_, hpc⟩
      rw [Option.mem_def] at hc ⊢
      rw [List.head?_append, hc]
      rfl
  | empty => cases hfirst
  | altLeft _ _ => cases hfirst
  | altRight _ _ => cases hfirst
  | starNil => cases hfirst
  | starCons _ _ _ _ _ => cases hfirst
  | lazyNil => cases hfirst
  | lazyCons _ _ _ _ _ => cases hfirst
  | wordEdge _ => cases hfirst

/-- A pattern that reads only some characters. -/
def Pattern.Only (q : Char → Prop) : Pattern → Prop
  | .empty => True
  | .chars p => ∀ c, p c = true → q c
  | .seq r t => r.Only q ∧ t.Only q
  | .alt r t => r.Only q ∧ t.Only q
  | .star r => r.Only q
  | .lazy r => r.Only q
  | .wordEdge => True

theorem Matches.forall_mem {q : Char → Prop} (h : Matches isWord r prev m rest) (honly : r.Only q) :
    ∀ c ∈ m, q c := by
  induction h with
  | empty => exact List.forall_mem_nil _
  | chars hc => exact List.forall_mem_singleton.2 (honly _ hc)
  | seq _ _ ih ih' => exact List.forall_mem_append.2 ⟨ih honly.1, ih' honly.2⟩
  | altLeft _ ih => exact ih honly.1
  | altRight _ ih => exact ih honly.2
  | starNil => exact List.forall_mem_nil _
  | starCons _ _ _ ih ih' => exact List.forall_mem_append.2 ⟨ih honly, ih' honly⟩
  | lazyNil => exact List.forall_mem_nil _
  | lazyCons _ _ _ ih ih' => exact List.forall_mem_append.2 ⟨ih honly, ih' honly⟩
  | wordEdge _ => exact List.forall_mem_nil _

end Kyth.Regex
