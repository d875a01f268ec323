import Kyth.Lib.LockedFile

/-!
# Runs of calls that keep to the lock

What every step of calls on a locked file keeps, as long as their programs keep to the lock. `linear_of_reachable`
says that such calls take effect one after another: the file is always what the calls leave that are in the log,
in its order, each as if it ran alone.
-/

namespace Kyth.LockedFile

section Invariant

variable {B E α Op : Type} (serve : Op → Option (List B) → Except E α × Option (List B)) (late : E → Prop)
  (Durable : Prop)

/-- The file behind the calls of a log, one after another. -/
def after (start : Option (List B)) (log : List (ℕ × Op)) : Option (List B) :=
  log.foldl (fun file e => (serve e.2 file).2.or file) start

theorem after_concat (start : Option (List B)) (log : List (ℕ × Op)) (e : ℕ × Op) :
    after serve start (log ++ [e]) = (serve e.2 (after serve start log)).2.or (after serve start log) := by
  simp [after]

variable (start : Option (List B))

/-- What a running call can rely on. -/
inductive Sees (s : System Op B E α) (i : ℕ) (c : Call Op B E α) : Option (View B α) → Prop
  | outside (hholder : s.holder ≠ some i) (happlied : c.applied = false) : Sees s i c none
  | inside (hholder : s.holder = some i) (happlied : c.applied = false) :
      Sees s i c (some ⟨s.store, s.temp, none, c.synced⟩)
  | changed {before rest : List (ℕ × Op)} {a : α} {text : List B} (hholder : s.holder = some i)
      (happlied : c.applied = true) (hlog : s.log = before ++ (i, c.op) :: rest)
      (hserve : serve c.op (after serve start before) = (.ok a, some text)) :
      Sees s i c (some ⟨s.store, s.temp, some a, c.synced⟩)

/-- What a call returned: its answer behind the calls that came before it, or an error. -/
structure Returned (s : System Op B E α) (i : ℕ) (c : Call Op B E α) (result : Except E α) : Prop where
  ok : ∀ a, result = .ok a → c.applied = true ∧ ∃ earlier change,
    serve c.op (after serve start earlier) = (.ok a, change) ∧ (Durable → change ≠ none → c.synced = true) ∧
      ∀ before rest, s.log = before ++ (i, c.op) :: rest → before = earlier
  error : ∀ e, result = .error e → c.applied = true → late e

/-- What holds of a call. -/
structure CallInv (ReadsFail : Prop) (s : System Op B E α) (i : ℕ) (c : Call Op B E α) : Prop where
  runs : ∀ p, c.state = .running p → ∃ w, Sees serve start s i c w ∧
    Wp ReadsFail (serve c.op) (Served (serve c.op) late Durable) p w
  applied : c.applied = true ↔ (i, c.op) ∈ s.log ++ s.lost
  returned : ∀ result, c.state = .returned result → Returned serve late Durable start s i c result
  synced : c.synced = true → (i, c.op) ∈ s.log ∧ ∀ v ∈ s.older, (i, c.op) ∈ s.log.take v.length

/-- What holds in every state of a run. -/
structure Inv (ReadsFail : Prop) (s : System Op B E α) : Prop where
  store : s.store = after serve start s.log
  settled : s.settled = true
  older : ∀ v ∈ s.older, v.synced = true ∧ v.length ≤ s.log.length ∧
    v.text = after serve start (s.log.take v.length)
  held : ∀ i, s.holder = some i → ∃ c p, s.Runs i c p
  calls : ∀ i c, s.calls[i]? = some c → CallInv serve late Durable start ReadsFail s i c
  known : ∀ e ∈ s.log ++ s.lost, ∃ c, s.calls[e.1]? = some c ∧ c.op = e.2
  nodup : ((s.log ++ s.lost).map Prod.fst).Nodup
  served : ∀ before e rest, s.log = before ++ e :: rest →
    ∃ a change, serve e.2 (after serve start before) = (.ok a, change)
  outages : s.outages = 0 → s.lost = []

variable {serve late Durable start} {ReadsFail : Prop} {s s' : System Op B E α} {i j : ℕ} {c c' d : Call Op B E α}
  {p p' : Proc B E (Except E α)}

theorem getElem?_set_eq_some {β : Type} {l : List β} {a b : β} (h : (l.set i a)[j]? = some b) :
    j = i ∧ b = a ∨ j ≠ i ∧ l[j]? = some b := by
  rw [List.getElem?_set] at h
  split_ifs at h with hij
  · cases h
    exact .inl ⟨hij.symm, rfl⟩
  · exact .inr ⟨Ne.symm hij, h⟩

theorem getElem?_set_self {β : Type} {l : List β} {a b : β} (h : l[i]? = some b) :
    (l.set i a)[i]? = some a := by
  obtain ⟨hlt, -⟩ := List.getElem?_eq_some_iff.1 h
  simp [hlt]

/-- An entry that is not among the new ones has its place in the old log. -/
theorem split_of_append {β : Type} {l new before rest : List β} {x : β} (hnew : x ∉ new)
    (h : l ++ new = before ++ x :: rest) : ∃ rest', l = before ++ x :: rest' := by
  obtain ⟨r, -, hr⟩ | ⟨r, rfl, hr⟩ := List.append_eq_append_iff.1 h
  · exact absurd (by rw [hr]; simp) hnew
  · cases r with
    | nil => exact absurd (by rw [← List.nil_append new, ← hr]; simp) hnew
    | cons y r =>
      rw [List.cons_append, List.cons.injEq] at hr
      exact ⟨r, by rw [hr.1]⟩

/-- What is in a longer log is in it. -/
theorem mem_take_append {β : Type} {l new : List β} {x : β} {n : ℕ} (h : x ∈ l.take n) :
    x ∈ (l ++ new).take n := by
  rw [List.take_append]
  exact List.mem_append_left _ h

/-- What another call does to the files does not reach a call: it does not change the files under its lock, its
entries of the log are its own, and no version that may come back is from before an entry. -/
theorem CallInv.frame {l : List (ℕ × Op)} (h : CallInv serve late Durable start ReadsFail s j d)
    (hlog : s'.log = s.log ++ l) (hnew : ∀ e ∈ l, e.1 ≠ j) (hlost : s'.lost = s.lost)
    (hholder : s'.holder = some j ↔ s.holder = some j)
    (hfiles : s.holder = some j → s'.store = s.store ∧ s'.temp = s.temp)
    (hversions : ∀ v ∈ s'.older, v ∈ s.older ∨ s.log.length ≤ v.length) :
    CallInv serve late Durable start ReadsFail s' j d := by
  have hmem : (j, d.op) ∉ l := fun hmem => hnew _ hmem rfl
  refine ⟨fun p hp => ?_, ?_, fun result hresult => ?_, fun hsynced => ?_⟩
  · obtain ⟨w, hsees, hwp⟩ := h.runs p hp
    refine ⟨w, ?_, hwp⟩
    cases hsees with
    | outside hout happlied => exact .outside (fun hin => hout (hholder.1 hin)) happlied
    | inside hin happlied =>
      obtain ⟨hstore, htemp⟩ := hfiles hin
      rw [← hstore, ← htemp]
      exact .inside (hholder.2 hin) happlied
    | changed hin happlied hsplit hserve =>
      obtain ⟨hstore, htemp⟩ := hfiles hin
      rw [← hstore, ← htemp]
      exact .changed (hholder.2 hin) happlied
        (by rw [hlog, hsplit, List.append_assoc, List.cons_append]) hserve
  · rw [h.applied, hlog, hlost]
    simp [hmem]
  · obtain ⟨hok, herror⟩ := h.returned result hresult
    refine ⟨fun a ha => ?_, herror⟩
    obtain ⟨happlied, earlier, change, hanswer, hdurable, hplace⟩ := hok a ha
    refine ⟨happlied, earlier, change, hanswer, hdurable, fun before rest hsplit => ?_⟩
    rw [hlog] at hsplit
    obtain ⟨rest', hsplit'⟩ := split_of_append hmem hsplit
    exact hplace before rest' hsplit'
  · obtain ⟨hin, htake⟩ := h.synced hsynced
    rw [hlog]
    refine ⟨List.mem_append_left _ hin, fun v hv => ?_⟩
    obtain hv | hlength := hversions v hv
    · exact mem_take_append (htake v hv)
    · exact mem_take_append (by rwa [List.take_of_length_le hlength])

/-- Only a change is synced. -/
theorem CallInv.not_synced (h : CallInv serve late Durable start ReadsFail s i c) (happlied : c.applied = false) :
    c.synced = false := by
  by_contra hsynced
  rw [Bool.not_eq_false] at hsynced
  have hdone := h.applied.2 (List.mem_append_left _ (h.synced hsynced).1)
  rw [happlied] at hdone
  cases hdone

/-- A call that is applied has its entry, and no call has two. -/
theorem Inv.notMem_keys (h : Inv serve late Durable start ReadsFail s) (hcall : s.calls[i]? = some c)
    (happlied : c.applied = false) : i ∉ (s.log ++ s.lost).map Prod.fst := by
  intro hmem
  obtain ⟨⟨j, op⟩, hentry, rfl⟩ := List.mem_map.1 hmem
  obtain ⟨c', hcall', rfl⟩ := h.known _ hentry
  obtain rfl : c = c' := by simpa [hcall] using hcall'
  rw [(h.calls j c hcall).applied.2 hentry] at happlied
  cases happlied

/-- The place of an entry in the log is the only one. -/
theorem Inv.split_unique (h : Inv serve late Durable start ReadsFail s) {x : ℕ × Op}
    {before before' rest rest' : List (ℕ × Op)} (hsplit : s.log = before ++ x :: rest)
    (hsplit' : s.log = before' ++ x :: rest') : before = before' := by
  have hnodup : s.log.Nodup := (List.nodup_append.1 (List.Nodup.of_map _ h.nodup)).1
  rw [hsplit, List.nodup_append, List.nodup_cons] at hnodup
  refine ((List.append_cons_inj_of_notMem (fun hmem => ?_) hnodup.2.1.1).1 (hsplit.symm.trans hsplit')).1
  exact hnodup.2.2 x hmem x (by simp) rfl

theorem sees_none_iff {w : Option (View B α)} (hsees : Sees serve start s i c w) :
    w = none ↔ s.holder ≠ some i := by
  cases hsees with
  | outside hout => simpa using hout
  | inside hin => simpa using hin
  | changed hin => simpa using hin

/-- What a view says of the files. -/
theorem Sees.eq {v : View B α} (hsees : Sees serve start s i c (some v)) :
    s.holder = some i ∧ v.store = s.store ∧ v.temp = s.temp ∧ v.synced = c.synced := by
  cases hsees with
  | inside hin => exact ⟨hin, rfl, rfl, rfl⟩
  | changed hin => exact ⟨hin, rfl, rfl, rfl⟩

/-! ### One step -/

/-- The other calls after a change of the files under the lock of one call. -/
theorem Inv.calls_set (h : Inv serve late Durable start ReadsFail s) {l : List (ℕ × Op)}
    (hcalls : s'.calls = s.calls.set i c') (hlog : s'.log = s.log ++ l) (hnew : ∀ e ∈ l, e.1 = i)
    (hlost : s'.lost = s.lost) (hholder : ∀ j, j ≠ i → (s'.holder = some j ↔ s.holder = some j))
    (hfiles : s.holder = some i ∨ s'.store = s.store ∧ s'.temp = s.temp)
    (hversions : ∀ v ∈ s'.older, v ∈ s.older ∨ s.log.length ≤ v.length)
    (hself : CallInv serve late Durable start ReadsFail s' i c') :
    ∀ j d, s'.calls[j]? = some d → CallInv serve late Durable start ReadsFail s' j d := by
  intro j d hcall
  rw [hcalls] at hcall
  obtain ⟨rfl, rfl⟩ | ⟨hne, hcall⟩ := getElem?_set_eq_some hcall
  · exact hself
  · refine (h.calls j d hcall).frame hlog (fun e he heq => hne ((heq.symm.trans (hnew e he)))) hlost
      (hholder j hne) (fun hin => ?_) hversions
    obtain hin' | hsame := hfiles
    · rw [hin'] at hin
      cases hin
      exact absurd rfl hne
    · exact hsame

/-- The entries of the log are those of calls. -/
theorem Inv.known_set (h : Inv serve late Durable start ReadsFail s) (hcall : s.calls[i]? = some c)
    (c' : Call Op B E α) (hop : c'.op = c.op) : ∀ e ∈ s.log ++ s.lost, ∃ d, (s.calls.set i c')[e.1]? = some d ∧ d.op = e.2 := by
  intro e he
  obtain ⟨d, hd, hdop⟩ := h.known e he
  by_cases hi : e.1 = i
  · obtain rfl : d = c := by simpa [hi, hcall] using hd.symm
    exact ⟨c', by rw [hi]; exact getElem?_set_self hcall, hop.trans hdop⟩
  · exact ⟨d, by rwa [List.getElem?_set_ne (Ne.symm hi)], hdop⟩

/-- The log with the entry of one more call. -/
theorem Inv.nodup_concat (h : Inv serve late Durable start ReadsFail s) (hcall : s.calls[i]? = some c)
    (happlied : c.applied = false) : ((s.log ++ [(i, c.op)] ++ s.lost).map Prod.fst).Nodup := by
  have hperm : (s.log ++ [(i, c.op)] ++ s.lost).Perm ((i, c.op) :: (s.log ++ s.lost)) := by
    rw [List.append_assoc]
    exact List.perm_middle
  refine ((hperm.map Prod.fst).nodup_iff).2 ?_
  rw [List.map_cons, List.nodup_cons]
  exact ⟨h.notMem_keys hcall happlied, h.nodup⟩

theorem Inv.known_concat (h : Inv serve late Durable start ReadsFail s) (hcall : s.calls[i]? = some c)
    (c' : Call Op B E α) (hop : c'.op = c.op) :
    ∀ e ∈ s.log ++ [(i, c.op)] ++ s.lost, ∃ d, (s.calls.set i c')[e.1]? = some d ∧ d.op = e.2 := by
  intro e he
  have he' : e ∈ s.log ++ s.lost ∨ e = (i, c.op) := by
    simp only [List.mem_append, List.mem_singleton] at he ⊢
    tauto
  obtain he' | rfl := he'
  · exact h.known_set hcall c' hop e he'
  · exact ⟨c', getElem?_set_self hcall, hop⟩

theorem Inv.older_concat (h : Inv serve late Durable start ReadsFail s) (e : ℕ × Op) :
    ∀ v ∈ s.older, v.synced = true ∧ v.length ≤ (s.log ++ [e]).length ∧
      v.text = after serve start ((s.log ++ [e]).take v.length) := by
  intro v hv
  obtain ⟨hsynced, hlength, htext⟩ := h.older v hv
  refine ⟨hsynced, hlength.trans (by simp), ?_⟩
  rw [htext, List.take_append_of_le_length hlength]

theorem Inv.served_concat {e : ℕ × Op} {a : α} {change : Option (List B)}
    (h : Inv serve late Durable start ReadsFail s)
    (hserve : serve e.2 (after serve start s.log) = (.ok a, change)) :
    ∀ before e' rest, s.log ++ [e] = before ++ e' :: rest →
      ∃ a change, serve e'.2 (after serve start before) = (.ok a, change) := by
  intro before e' rest hsplit
  obtain rfl | ⟨r, x, rfl⟩ := List.eq_nil_or_concat' rest
  · obtain ⟨rfl, hsame⟩ := List.append_inj' hsplit rfl
    cases hsame
    exact ⟨a, change, hserve⟩
  · rw [← List.cons_append, ← List.append_assoc] at hsplit
    exact h.served before e' r (List.append_inj' hsplit rfl).1

/-- The call that holds the lock is running. -/
theorem Inv.held_set (h : Inv serve late Durable start ReadsFail s) (hcall : s.calls[i]? = some c)
    (c' : Call Op B E α) {q : Proc B E (Except E α)} (hstate : c'.state = .running q)
    (hcalls : s'.calls = s.calls.set i c') (hin : s.holder = some j) : ∃ d q, s'.Runs j d q := by
  obtain ⟨d, r, hd⟩ := h.held j hin
  by_cases hi : j = i
  · subst hi
    exact ⟨c', q, by rw [hcalls]; exact getElem?_set_self hcall, hstate⟩
  · exact ⟨d, r, by rw [hcalls, List.getElem?_set_ne (Ne.symm hi)]; exact hd.call, hd.state⟩

/-- A call goes on, and changes at most the temporary file, for which it holds the lock. -/
theorem Inv.goOn (h : Inv serve late Durable start ReadsFail s) (hruns : s.Runs i c p) (temp : Option (File B))
    (hnext : ∀ w, Sees serve start s i c w → Wp ReadsFail (serve c.op) (Served (serve c.op) late Durable) p w →
      (temp = s.temp ∧ Wp ReadsFail (serve c.op) (Served (serve c.op) late Durable) p' w) ∨
      ∃ v, w = some v ∧
        Wp ReadsFail (serve c.op) (Served (serve c.op) late Durable) p' (some { v with temp := temp })) :
    Inv serve late Durable start ReadsFail { s.goOn i c p' with temp := temp } where
  store := h.store
  settled := h.settled
  older := h.older
  held := fun _ hin => h.held_set hruns.call _ rfl rfl hin
  known := h.known_set hruns.call _ rfl
  nodup := h.nodup
  served := h.served
  outages := h.outages
  calls := by
    have hself := h.calls i c hruns.call
    obtain ⟨w, hsees, hwp⟩ := hself.runs p hruns.state
    have hnext' := hnext w hsees hwp
    refine h.calls_set (l := []) rfl (by simp [System.goOn]) (by simp) rfl (fun j _ => Iff.rfl) ?_
      (fun v hv => .inl hv) ⟨fun q hq => ?_, hself.applied, fun result hresult => (by cases hresult), hself.synced⟩
    · obtain ⟨rfl, -⟩ | ⟨v, rfl, -⟩ := hnext'
      · exact .inr ⟨rfl, rfl⟩
      · exact .inl hsees.eq.1
    · cases hq
      obtain ⟨rfl, hwp'⟩ | ⟨v, rfl, hwp'⟩ := hnext'
      · refine ⟨w, ?_, hwp'⟩
        cases hsees with
        | outside hout happlied => exact .outside hout happlied
        | inside hin happlied => exact .inside hin happlied
        | changed hin happlied hlog hserve => exact .changed hin happlied hlog hserve
      · refine ⟨_, ?_, hwp'⟩
        cases hsees with
        | inside hin happlied => exact .inside hin happlied
        | changed hin happlied hlog hserve => exact .changed hin happlied hlog hserve

/-- The step of a call that takes the lock. -/
theorem Inv.locks {next : Except E Unit → Proc B E (Except E α)} (h : Inv serve late Durable start ReadsFail s)
    (hruns : s.Runs i c (.flock next)) (hfree : s.holder = none) :
    Inv serve late Durable start ReadsFail { s.goOn i c (next (.ok ())) with holder := some i } where
  store := h.store
  settled := h.settled
  older := h.older
  held := by
    rintro j ⟨⟩
    exact ⟨_, _, getElem?_set_self hruns.call, rfl⟩
  known := h.known_set hruns.call _ rfl
  nodup := h.nodup
  served := h.served
  outages := h.outages
  calls := by
    have hself := h.calls i c hruns.call
    obtain ⟨w, hsees, hwp⟩ := hself.runs _ hruns.state
    obtain ⟨rfl, -, hok⟩ := hwp
    refine h.calls_set (l := []) rfl (by simp [System.goOn]) (by simp) rfl (fun j hne => ?_)
      (.inr ⟨rfl, rfl⟩) (fun v hv => .inl hv)
      ⟨fun q hq => ?_, hself.applied, fun result hresult => (by cases hresult), hself.synced⟩
    · show some i = some j ↔ s.holder = some j
      simp [hfree, Ne.symm hne]
    · cases hq
      cases hsees with
      | outside hout happlied =>
        have hsynced := hself.not_synced happlied
        obtain ⟨op, state, applied, synced⟩ := c
        obtain rfl : synced = false := hsynced
        exact ⟨_, .inside rfl happlied, hok s.store s.temp⟩

/-- The step of a call that renames its file. -/
theorem Inv.renames {next : Except E Unit → Proc B E (Except E α)} {file : File B}
    (h : Inv serve late Durable start ReadsFail s) (hruns : s.Runs i c (.rename next)) (hfile : s.temp = some file) :
    Inv serve late Durable start ReadsFail (s.replace i c file (next (.ok ()))) := by
  have hself := h.calls i c hruns.call
  obtain ⟨w, hsees, hwp⟩ := hself.runs _ hruns.state
  obtain ⟨v, a, text, rfl, hanswer, htemp, hserve, -, hok⟩ := hwp
  obtain ⟨hin, hstore, hvtemp, hvsynced⟩ := hsees.eq
  have happlied : c.applied = false := by
    cases hsees with
    | inside _ happlied => exact happlied
    | changed => cases hanswer
  obtain rfl : file = ⟨text, true⟩ := by simpa [← hvtemp, htemp] using hfile.symm
  rw [hstore, h.store] at hserve
  have hafter : after serve start (s.log ++ [(i, c.op)]) = some text := by
    rw [after_concat, hserve]
    rfl
  exact {
    store := hafter.symm
    settled := rfl
    older := by
      intro v hv
      obtain hv | hv := List.mem_append.1 hv
      · exact h.older_concat _ v hv
      · rw [List.mem_singleton.1 hv]
        refine ⟨h.settled, by simp [System.replace], ?_⟩
        simp [System.replace, h.store]
    held := fun _ hin => h.held_set hruns.call _ rfl rfl hin
    known := h.known_concat hruns.call { c with state := .running (next (.ok ())), applied := true } rfl
    nodup := h.nodup_concat hruns.call happlied
    served := h.served_concat hserve
    outages := h.outages
    calls := by
      refine h.calls_set (l := [(i, c.op)]) rfl rfl (by simp) rfl (fun j _ => Iff.rfl) (.inl hin)
        (fun v hv => ?_) ⟨fun q hq => ?_, ?_, fun result hresult => (by cases hresult), fun hsynced => ?_⟩
      · obtain hv | hv := List.mem_append.1 hv
        · exact .inl hv
        · rw [List.mem_singleton.1 hv]
          exact .inr le_rfl
      · cases hq
        exact ⟨_, .changed hin rfl rfl hserve, hvsynced ▸ hok⟩
      · simp [System.replace]
      · exact absurd (hsynced.symm.trans (hself.not_synced happlied)) (by simp) }

/-- The step of a call that syncs the directory. -/
theorem Inv.syncsDir {next : Except E Unit → Proc B E (Except E α)} (h : Inv serve late Durable start ReadsFail s)
    (hruns : s.Runs i c (.syncDir next)) :
    Inv serve late Durable start ReadsFail { s.goOn i { c with synced := c.applied } (next (.ok ())) with older := [] } where
  store := h.store
  settled := h.settled
  older := by simp
  held := fun _ hin => h.held_set hruns.call _ rfl rfl hin
  known := h.known_set hruns.call _ rfl
  nodup := h.nodup
  served := h.served
  outages := h.outages
  calls := by
    have hself := h.calls i c hruns.call
    obtain ⟨w, hsees, hwp⟩ := hself.runs _ hruns.state
    refine h.calls_set (l := []) rfl (by simp [System.goOn]) (by simp) rfl (fun j _ => Iff.rfl)
      (.inr ⟨rfl, rfl⟩) (by simp)
      ⟨fun q hq => ?_, hself.applied, fun result hresult => (by cases hresult), fun happlied => ?_⟩
    · cases hq
      refine ⟨_, ?_, hwp.2⟩
      cases hsees with
      | outside hout happlied => exact .outside hout happlied
      | inside hin happlied =>
        obtain ⟨op, state, applied, synced⟩ := c
        obtain rfl : applied = false := happlied
        exact .inside hin rfl
      | changed hin happlied hlog hserve =>
        obtain ⟨op, state, applied, synced⟩ := c
        obtain rfl : applied = true := happlied
        exact .changed hin rfl hlog hserve
    · -- a call that is applied and still runs has its place in the log
      cases hsees with
      | outside _ hnot => exact absurd (happlied.symm.trans hnot) (by simp)
      | inside _ hnot => exact absurd (happlied.symm.trans hnot) (by simp)
      | changed _ _ hlog => exact ⟨by simp [System.goOn, hlog], by simp⟩

theorem release_eq_some {s : System Op B E α} : s.release i = some j ↔ s.holder = some j ∧ j ≠ i := by
  unfold System.release
  split_ifs with hin
  · simp only [false_iff, not_and, not_not]
    intro hj
    rw [hin] at hj
    exact (Option.some.inj hj).symm
  · refine ⟨fun hj => ⟨hj, ?_⟩, And.left⟩
    rintro rfl
    exact hin hj

/-- The call that holds the lock is running when another one has left it. -/
theorem Inv.held_release (h : Inv serve late Durable start ReadsFail s) (c' : Call Op B E α)
    (hcalls : s'.calls = s.calls.set i c') (hin : s.release i = some j) : ∃ d q, s'.Runs j d q := by
  obtain ⟨hin, hne⟩ := release_eq_some.1 hin
  obtain ⟨d, q, hd⟩ := h.held j hin
  exact ⟨d, q, by rw [hcalls, List.getElem?_set_ne (Ne.symm hne)]; exact hd.call, hd.state⟩

/-- The end of a call that is killed. -/
theorem Inv.kills (h : Inv serve late Durable start ReadsFail s) (hruns : s.Runs i c p) :
    Inv serve late Durable start ReadsFail
      { s with calls := s.calls.set i { c with state := .killed }, holder := s.release i } where
  store := h.store
  settled := h.settled
  older := h.older
  held := fun _ hin => h.held_release _ rfl hin
  known := h.known_set hruns.call _ rfl
  nodup := h.nodup
  served := h.served
  outages := h.outages
  calls := by
    have hself := h.calls i c hruns.call
    refine h.calls_set (l := []) rfl (by simp) (by simp) rfl (fun j hne => ?_) (.inr ⟨rfl, rfl⟩)
      (fun v hv => .inl hv) ⟨fun q hq => (by cases hq), hself.applied,
        fun result hresult => (by cases hresult), hself.synced⟩
    show s.release i = some j ↔ _
    rw [release_eq_some]
    exact and_iff_left hne

/-- The end of a call whose answer does not add to the log. -/
theorem Inv.finish_same {result : Except E α} (h : Inv serve late Durable start ReadsFail s)
    (hcall : s.calls[i]? = some c) (hsame : (!c.applied && result.isOk) = false)
    (hreturned : Returned serve late Durable start s i c result) :
    Inv serve late Durable start ReadsFail (s.finish i c result) := by
  have happlied : (c.applied || result.isOk) = c.applied := by
    cases hc : c.applied <;> simp_all
  have hlog : (s.finish i c result).log = s.log := by simp [System.finish, hsame]
  have hself := h.calls i c hcall
  exact {
    store := by rw [hlog]; exact h.store
    settled := h.settled
    older := by rw [hlog]; exact h.older
    held := fun _ hin => h.held_release _ rfl hin
    known := by
      rw [hlog]
      exact h.known_set hcall { c with state := .returned result, applied := c.applied || result.isOk } rfl
    nodup := by rw [hlog]; exact h.nodup
    served := by rw [hlog]; exact h.served
    outages := h.outages
    calls := by
      refine h.calls_set (l := []) rfl (by simp [hlog]) (by simp) rfl (fun j hne => ?_) (.inr ⟨rfl, rfl⟩)
        (fun v hv => .inl hv) ⟨fun q hq => (by cases hq), ?_, fun r hr => ?_, ?_⟩
      · show s.release i = some j ↔ _
        rw [release_eq_some]
        exact and_iff_left hne
      · rw [hlog]
        show (c.applied || result.isOk) = true ↔ _
        rw [happlied]
        exact hself.applied
      · cases hr
        refine ⟨fun a ha => ?_, fun e he hlate => ?_⟩
        · obtain ⟨hdone, hplace⟩ := hreturned.ok a ha
          rw [← happlied] at hdone
          rw [hlog]
          exact ⟨hdone, hplace⟩
        · refine hreturned.error e he ?_
          rw [← happlied]
          exact hlate
      · rw [hlog]
        exact hself.synced }

/-- The end of a call that changes nothing and is applied as it returns. -/
theorem Inv.finish_new {a : α} (h : Inv serve late Durable start ReadsFail s) (hcall : s.calls[i]? = some c)
    (happlied : c.applied = false) (hserve : serve c.op s.store = (.ok a, none)) :
    Inv serve late Durable start ReadsFail (s.finish i c (.ok a)) := by
  have hlog : (s.finish i c (.ok a)).log = s.log ++ [(i, c.op)] := by
    simp [System.finish, happlied, Except.isOk, Except.toBool]
  have hself := h.calls i c hcall
  rw [h.store] at hserve
  have hafter : after serve start (s.log ++ [(i, c.op)]) = after serve start s.log := by
    rw [after_concat, hserve]
    rfl
  exact {
    store := by rw [hlog, hafter]; exact h.store
    settled := h.settled
    older := by
      rw [hlog]
      exact h.older_concat _
    held := fun _ hin => h.held_release _ rfl hin
    known := by
      rw [hlog]
      exact h.known_concat hcall _ rfl
    nodup := by
      rw [hlog]
      exact h.nodup_concat hcall happlied
    served := by
      rw [hlog]
      exact h.served_concat hserve
    outages := h.outages
    calls := by
      refine h.calls_set (l := [(i, c.op)]) rfl hlog (by simp) rfl (fun j hne => ?_) (.inr ⟨rfl, rfl⟩)
        (fun v hv => .inl hv) ⟨fun q hq => (by cases hq), ?_, fun r hr => ?_, fun hsynced => ?_⟩
      · show s.release i = some j ↔ _
        rw [release_eq_some]
        exact and_iff_left hne
      · rw [hlog]
        simp [Except.isOk, Except.toBool]
      · cases hr
        refine ⟨fun b hb => ⟨by simp [Except.isOk, Except.toBool], s.log, none, ?_, fun _ hnone => absurd rfl hnone,
          fun before rest hsplit => ?_⟩, fun e he => (by cases he)⟩
        · cases hb
          exact hserve
        rw [hlog] at hsplit
        -- the entry at the end is the only one of this call
        have hnot : (i, c.op) ∉ s.log := fun hmem =>
          h.notMem_keys hcall happlied (List.mem_map_of_mem (List.mem_append_left _ hmem))
        exact ((List.append_cons_inj_of_notMem hnot (by simp)).1 hsplit).1.symm
      · exact absurd (hsynced.symm.trans (hself.not_synced happlied)) (by simp) }

/-- The end of a call. -/
theorem Inv.returns {result : Except E α} (h : Inv serve late Durable start ReadsFail s)
    (hruns : s.Runs i c (.done result)) : Inv serve late Durable start ReadsFail (s.finish i c result) := by
  obtain ⟨w, hsees, hserved⟩ := (h.calls i c hruns.call).runs _ hruns.state
  cases hsees with
  | outside hout happlied =>
    obtain ⟨e, rfl⟩ := hserved
    exact h.finish_same hruns.call (by simp [Except.isOk, Except.toBool])
      ⟨fun a ha => (by cases ha), fun e he hnot => absurd (happlied.symm.trans hnot) (by simp)⟩
  | inside hin happlied =>
    obtain ⟨e, rfl⟩ | ⟨a, rfl, hserve⟩ := hserved
    · exact h.finish_same hruns.call (by simp [Except.isOk, Except.toBool])
        ⟨fun a ha => (by cases ha), fun e he hnot => absurd (happlied.symm.trans hnot) (by simp)⟩
    · exact h.finish_new hruns.call happlied hserve
  | changed hin happlied hlog hserve =>
    refine h.finish_same hruns.call (by simp [happlied]) ?_
    obtain ⟨rfl, hdurable⟩ | ⟨e, rfl, hlate⟩ := hserved
    · refine ⟨fun a ha => ?_, fun e he => (by cases he)⟩
      cases ha
      exact ⟨happlied, _, _, hserve, fun hdur _ => hdurable hdur,
        fun before rest hsplit => h.split_unique hsplit hlog⟩
    · refine ⟨fun a ha => (by cases ha), fun e' he _ => ?_⟩
      cases he
      exact hlate

theorem getElem?_concat_of_some {β : Type} {l : List β} {a b : β} (h : l[i]? = some b) :
    (l ++ [a])[i]? = some b := by
  rw [List.getElem?_append_left (List.getElem?_eq_some_iff.1 h).1, h]

/-- A call that begins. -/
theorem Inv.begins {program : Op → Proc B E (Except E α)}
    (hprogram : ∀ op, Wp ReadsFail (serve op) (Served (serve op) late Durable) (program op) none)
    (h : Inv serve late Durable start ReadsFail s) (op : Op) :
    Inv serve late Durable start ReadsFail { s with calls := s.calls ++ [{ op, state := .running (program op) }] } where
  store := h.store
  settled := h.settled
  older := h.older
  held := by
    intro j hin
    obtain ⟨d, q, hd⟩ := h.held j hin
    exact ⟨d, q, getElem?_concat_of_some hd.call, hd.state⟩
  known := by
    intro e he
    obtain ⟨d, hd, hop⟩ := h.known e he
    exact ⟨d, getElem?_concat_of_some hd, hop⟩
  nodup := h.nodup
  served := h.served
  outages := h.outages
  calls := by
    intro j d hcall
    by_cases hj : j < s.calls.length
    · rw [List.getElem?_append_left hj] at hcall
      exact (h.calls j d hcall).frame (l := []) (by simp) (by simp) rfl Iff.rfl (fun _ => ⟨rfl, rfl⟩)
        fun v hv => .inl hv
    · -- no entry of the log and no lock is that of a call that has not begun
      have hnone : s.calls[j]? = none := List.getElem?_eq_none (Nat.not_lt.1 hj)
      have hentry : (j, d.op) ∉ s.log ++ s.lost := by
        intro he
        obtain ⟨d', hd', -⟩ := h.known _ he
        rw [hnone] at hd'
        cases hd'
      have hout : s.holder ≠ some j := by
        intro hin
        obtain ⟨d', q, hcall', -⟩ := h.held j hin
        rw [hnone] at hcall'
        cases hcall'
      rw [List.getElem?_append_right (Nat.not_lt.1 hj)] at hcall
      obtain rfl := List.mem_singleton.1 (List.mem_of_getElem? hcall)
      refine ⟨fun p hp => ?_, by simpa using hentry, fun result hresult => (by cases hresult),
        fun hsynced => (by cases hsynced)⟩
      cases hp
      exact ⟨none, .outside hout rfl, hprogram op⟩

theorem Call.cut_eq (c : Call Op B E α) :
    c.cut.op = c.op ∧ c.cut.applied = c.applied ∧ c.cut.synced = c.synced ∧
      (∀ q, c.cut.state ≠ .running q) ∧ ∀ r, c.cut.state = .returned r → c.state = .returned r := by
  obtain ⟨op, state, applied, synced⟩ := c
  cases state <;> simp [Call.cut]

/-- A power loss. -/
theorem Inv.cutOff (h : Inv serve late Durable start ReadsFail s) {v : Version B}
    (hv : v ∈ ⟨s.store, s.settled, s.log.length⟩ :: s.older) {text : Option (List B)}
    (htext : v.synced = true → text = v.text) (temp : Option (File B)) :
    Inv serve late Durable start ReadsFail (s.cutOff v text temp) := by
  have hversion : v.synced = true ∧ v.length ≤ s.log.length ∧ v.text = after serve start (s.log.take v.length) := by
    obtain rfl | hv := List.mem_cons.1 hv
    · exact ⟨h.settled, le_rfl, by rw [List.take_length]; exact h.store⟩
    · exact h.older v hv
  have hmem (e : ℕ × Op) : e ∈ s.log.take v.length ++ (s.lost ++ s.log.drop v.length) ↔ e ∈ s.log ++ s.lost := by
    conv_rhs => rw [← List.take_append_drop v.length s.log]
    simp only [List.mem_append]
    tauto
  obtain ⟨hsynced, -, hvtext⟩ := hversion
  exact {
    store := (htext hsynced).trans hvtext
    settled := rfl
    older := by simp [System.cutOff]
    held := by simp [System.cutOff]
    known := by
      intro e he
      obtain ⟨d, hd, hop⟩ := h.known e ((hmem e).1 he)
      refine ⟨d.cut, ?_, d.cut_eq.1.trans hop⟩
      show (s.calls.map Call.cut)[e.1]? = some d.cut
      rw [List.getElem?_map, hd]
      rfl
    nodup := by
      have hperm : (s.log.take v.length ++ (s.lost ++ s.log.drop v.length)).Perm (s.log ++ s.lost) := by
        refine (List.perm_append_comm.append_left _).trans ?_
        rw [← List.append_assoc, List.take_append_drop]
      exact ((hperm.map Prod.fst).nodup_iff).2 h.nodup
    served := by
      intro before e rest hsplit
      refine h.served before e (rest ++ s.log.drop v.length) ?_
      have hsplit' : s.log.take v.length = before ++ e :: rest := hsplit
      rw [← List.cons_append, ← List.append_assoc, ← hsplit', List.take_append_drop]
    outages := fun h => (by cases h)
    calls := by
      intro j d hcall
      obtain ⟨d', hd', rfl⟩ : ∃ d', s.calls[j]? = some d' ∧ d'.cut = d := by
        have hcall' : (s.calls.map Call.cut)[j]? = some d := hcall
        rw [List.getElem?_map] at hcall'
        exact Option.map_eq_some_iff.1 hcall'
      have hself := h.calls j d' hd'
      obtain ⟨hop, happlied, hcutSynced, hruns, hreturned⟩ := d'.cut_eq
      refine ⟨fun q hq => absurd hq (hruns q), ?_, fun result hresult => ?_, fun hdone => ?_⟩
      · rw [happlied, hop, hself.applied]
        exact (hmem _).symm
      · obtain ⟨hok, herror⟩ := hself.returned result (hreturned result hresult)
        rw [← happlied] at hok herror
        refine ⟨fun a ha => ?_, herror⟩
        obtain ⟨hdone, earlier, change, hanswer, hdurable, hplace⟩ := hok a ha
        refine ⟨hdone, earlier, change, by rwa [hop], fun hdur hchange => ?_, fun before rest hsplit => ?_⟩
        · rw [hcutSynced]
          exact hdurable hdur hchange
        rw [hop] at hsplit
        refine hplace before (rest ++ s.log.drop v.length) ?_
        have hsplit' : s.log.take v.length = before ++ (j, d'.op) :: rest := hsplit
        rw [← List.cons_append, ← List.append_assoc, ← hsplit', List.take_append_drop]
      · obtain ⟨hin, htake⟩ := hself.synced (hcutSynced ▸ hdone)
        refine ⟨?_, by simp [System.cutOff]⟩
        show (j, d'.cut.op) ∈ s.log.take v.length
        rw [hop]
        obtain rfl | hv := List.mem_cons.1 hv
        · rwa [List.take_length]
        · exact htake v hv }

/-- Every step keeps the invariant. -/
theorem Inv.step {program : Op → Proc B E (Except E α)}
    (hprogram : ∀ op, Wp ReadsFail (serve op) (Served (serve op) late Durable) (program op) none)
    (h : Inv serve late Durable start ReadsFail s) (hstep : Step program ReadsFail s s') :
    Inv serve late Durable start ReadsFail s' := by
  have hgoes {i : ℕ} {c : Call Op B E α} {p p' : Proc B E (Except E α)} (hruns : s.Runs i c p)
      (hnext : ∀ w, Sees serve start s i c w → Wp ReadsFail (serve c.op) (Served (serve c.op) late Durable) p w →
        Wp ReadsFail (serve c.op) (Served (serve c.op) late Durable) p' w) :
      Inv serve late Durable start ReadsFail (s.goOn i c p') :=
    h.goOn hruns s.temp fun w hsees hwp => .inl ⟨rfl, hnext w hsees hwp⟩
  cases hstep with
  | begins op => exact h.begins hprogram op
  | attempts hruns answer => exact hgoes hruns fun w _ hwp => hwp answer
  | lockFails hruns e =>
    refine hgoes hruns fun w _ hwp => ?_
    obtain ⟨rfl, hfail, -⟩ := hwp
    exact hfail e
  | locks hruns hfree => exact h.locks hruns hfree
  | readFails hruns hfails e =>
    refine hgoes hruns fun w _ hwp => ?_
    cases w with
    | none => exact hwp.1 hfails e
    | some v => exact hwp.1 hfails e
  | reads hruns =>
    refine hgoes hruns fun w hsees hwp => ?_
    cases hsees with
    | outside => exact hwp.2 s.store
    | inside => exact hwp.2
    | changed => exact hwp.2
  | createFails hruns e =>
    refine hgoes hruns fun w _ hwp => ?_
    obtain ⟨v, rfl, hfail, -⟩ := hwp
    exact hfail e
  | creates hruns =>
    refine h.goOn hruns _ fun w _ hwp => ?_
    obtain ⟨v, rfl, -, hok⟩ := hwp
    exact .inr ⟨v, rfl, hok⟩
  | writeFails hruns e =>
    refine hgoes hruns fun w hsees hwp => ?_
    obtain ⟨v, file, rfl, -, hfail, -⟩ := hwp
    exact hfail e v.temp
  | writes hruns front rest htext hfile =>
    subst htext
    refine h.goOn hruns _ fun w hsees hwp => ?_
    obtain ⟨v, file', rfl, hfile', hfail, hok⟩ := hwp
    obtain rfl : file' = _ := by simpa [hsees.eq.2.2.1, hfile] using hfile'.symm
    refine .inr ⟨v, rfl, _, _, rfl, rfl, hfail, fun synced => ?_⟩
    simpa [List.append_assoc] using hok synced
  | writesAll hruns =>
    refine hgoes hruns fun w hsees hwp => ?_
    obtain ⟨v, file, rfl, hfile, -, hok⟩ := hwp
    obtain ⟨store, temp, answer⟩ := v
    obtain rfl : temp = some file := hfile
    simpa using hok file.synced
  | syncFails hruns e =>
    refine hgoes hruns fun w _ hwp => ?_
    obtain ⟨v, file, rfl, -, hfail, -⟩ := hwp
    exact hfail e
  | syncs hruns hfile =>
    refine h.goOn hruns _ fun w hsees hwp => ?_
    obtain ⟨v, file', rfl, hfile', -, hok⟩ := hwp
    obtain rfl : file' = _ := by simpa [hsees.eq.2.2.1, hfile] using hfile'.symm
    exact .inr ⟨v, rfl, hok⟩
  | renameFails hruns e =>
    refine hgoes hruns fun w _ hwp => ?_
    obtain ⟨v, a, text, rfl, -, -, -, hfail, -⟩ := hwp
    exact hfail e
  | renames hruns hfile => exact h.renames hruns hfile
  | syncDirFails hruns e => exact hgoes hruns fun w _ hwp => hwp.1 e
  | syncsDir hruns => exact h.syncsDir hruns
  | removes hruns =>
    refine h.goOn hruns _ fun w _ hwp => ?_
    obtain ⟨v, rfl, -, hok⟩ := hwp
    exact .inr ⟨v, rfl, hok⟩
  | removeFails hruns e =>
    refine hgoes hruns fun w _ hwp => ?_
    obtain ⟨v, rfl, hfail, -⟩ := hwp
    exact hfail e
  | returns hruns => exact h.returns hruns
  | kills hruns => exact h.kills hruns
  | powerLoss hv htext temp => exact h.cutOff hv htext temp

theorem inv_start (start : Option (List B)) :
    Inv serve late Durable start ReadsFail ({ store := start } : System Op B E α) where
  store := rfl
  settled := rfl
  older := by simp
  held := by simp
  calls := by simp
  known := by simp
  nodup := by simp
  served := by simp
  outages := fun _ => rfl

/-- Every run keeps the invariant. -/
theorem inv_of_reachable {program : Op → Proc B E (Except E α)}
    (hprogram : ∀ op, Wp ReadsFail (serve op) (Served (serve op) late Durable) (program op) none)
    (h : Reachable program ReadsFail start s) : Inv serve late Durable start ReadsFail s := by
  induction h with
  | refl => exact inv_start start
  | tail _ hstep ih => exact ih.step hprogram hstep

end Invariant

/-! ### Calls one after another -/

variable {B E α Op : Type}

variable {program : Op → Proc B E (Except E α)} {serve : Op → Option (List B) → Except E α × Option (List B)}
  {late : E → Prop} {Durable ReadsFail : Prop} {start : Option (List B)} {s s' : System Op B E α}

/-- Without a power loss the log only grows. -/
theorem Step.log_prefix (h : Step program ReadsFail s s') :
    s.outages < s'.outages ∨ s'.outages = s.outages ∧ s.log <+: s'.log := by
  cases h with
  | renames => exact .inr ⟨rfl, List.prefix_append _ _⟩
  | @returns i c result hruns =>
    refine .inr ⟨rfl, ?_⟩
    show s.log <+: if (!c.applied && result.isOk) = true then s.log ++ [(i, c.op)] else s.log
    split_ifs
    · exact List.prefix_append _ _
    · exact List.prefix_refl _
  | powerLoss => exact .inl (Nat.lt_succ_self _)
  | _ => exact .inr ⟨rfl, List.prefix_refl _⟩

/-- What has been applied stays in front of what is applied later. -/
theorem log_prefix_of_steps (h : Relation.ReflTransGen (Step program ReadsFail) s s') :
    s.outages < s'.outages ∨ s'.outages = s.outages ∧ s.log <+: s'.log := by
  induction h with
  | refl => exact .inr ⟨rfl, List.prefix_refl _⟩
  | tail _ hstep ih =>
    obtain hlt | ⟨heq, hpre⟩ := ih <;> obtain hlt' | ⟨heq', hpre'⟩ := hstep.log_prefix
    · exact .inl (hlt.trans hlt')
    · exact .inl (heq' ▸ hlt)
    · exact .inl (heq ▸ hlt')
    · exact .inr ⟨heq'.trans heq, hpre.trans hpre'⟩

/-- The calls took effect one after another: the file is what the calls of the log leave in its order, each call
is in the log at most once, and a call that returned well is in it and returned what it returns alone behind the
calls before it. A call that failed is not in it, unless its error came late. What is lost was lost to a power
failure, and nothing is lost of a call that synced the directory. -/
structure Linear (serve : Op → Option (List B) → Except E α × Option (List B)) (late : E → Prop)
  (Durable : Prop)
    (start : Option (List B)) (s : System Op B E α) : Prop where
  store : s.store = after serve start s.log
  once : ((s.log ++ s.lost).map Prod.fst).Nodup
  known : ∀ e ∈ s.log ++ s.lost, ∃ c, s.calls[e.1]? = some c ∧ c.op = e.2
  served : ∀ before e rest, s.log = before ++ e :: rest →
    ∃ a change, serve e.2 (after serve start before) = (.ok a, change)
  returned : ∀ i c a, s.calls[i]? = some c → c.state = .returned (.ok a) →
    (i, c.op) ∈ s.log ++ s.lost ∧ ∃ earlier change, serve c.op (after serve start earlier) = (.ok a, change) ∧
      (Durable → change ≠ none → (i, c.op) ∈ s.log) ∧
      ∀ before rest, s.log = before ++ (i, c.op) :: rest → before = earlier
  failed : ∀ i c e, s.calls[i]? = some c → c.state = .returned (.error e) →
    (i, c.op) ∈ s.log ++ s.lost → late e
  durable : ∀ i c, s.calls[i]? = some c → c.synced = true → (i, c.op) ∈ s.log
  outages : s.outages = 0 → s.lost = []

/-- Calls that keep to the lock take effect one after another, whatever the order of their steps, whichever of
their system calls fail, and whenever they are killed or the power fails. -/
theorem linear_of_reachable
    (hprogram : ∀ op, Wp ReadsFail (serve op) (Served (serve op) late Durable) (program op) none)
    (h : Reachable program ReadsFail start s) : Linear serve late Durable start s := by
  have hinv := inv_of_reachable hprogram h
  refine ⟨hinv.store, hinv.nodup, hinv.known, hinv.served, fun i c a hcall hstate => ?_, fun i c e hcall hstate hmem => ?_,
    fun i c hcall hsynced => ((hinv.calls i c hcall).synced hsynced).1, hinv.outages⟩
  · have hself := hinv.calls i c hcall
    obtain ⟨happlied, earlier, change, hserve, hdurable, hplace⟩ := (hself.returned _ hstate).ok a rfl
    exact ⟨hself.applied.1 happlied, earlier, change, hserve,
      fun hdur hchange => (hself.synced (hdurable hdur hchange)).1, hplace⟩
  · exact ((hinv.calls i c hcall).returned _ hstate).error e rfl ((hinv.calls i c hcall).applied.2 hmem)

end Kyth.LockedFile
