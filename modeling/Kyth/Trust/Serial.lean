import Kyth.Lib.LockedRuns
import Kyth.Trust.Store

/-!
# Concurrent changes of the trusted executables (`exe_trust.rs`)

Any number of calls of `trust_file` and `untrust_file` run at once. `trust_serial` says that they take effect one
after another, `trusted_iff` what a later double click finds trusted, and `corrupt_kept` that a store that cannot
be read is never replaced.
-/

namespace Kyth.Trust

open Json LockedFile Str Utf8Text

/-- The hash that a call is about, in the case of its entry. -/
def Change.digest : Change → String
  | .trust sha256 _ _ _ => toAsciiLowercase sha256
  | .untrust sha256 => toAsciiLowercase sha256

theorem concerns_edit {change : Change} {key : String} :
    (edit change).Concerns key ↔ change.digest = key := by
  cases change <;> rfl

/-- Two stores with the same entries. -/
def Same (store store' : Store) : Prop := ∀ key, store.lookup key = store'.lookup key

/-- The store behind some changes. -/
def storeAfter (store : Store) (changes : List Change) : Store :=
  changes.foldl (fun store change => (edit change).apply store) store

theorem storeAfter_concat (store : Store) (changes : List Change) (change : Change) :
    storeAfter store (changes ++ [change]) = (edit change).apply (storeAfter store changes) := by
  simp only [storeAfter, List.foldl_append, List.foldl_cons, List.foldl_nil]

theorem Same.apply {store store' : Store} (h : Same store store') (e : Replay.Edit String Value) :
    Same (e.apply store) (e.apply store') := by
  intro key
  cases e with
  | clear => rfl
  | skip => exact h key
  | put key' value =>
    by_cases hkey : key = key'
    · subst hkey
      simp only [Replay.Edit.apply, AList.lookup_insert]
    · simp only [Replay.Edit.apply, AList.lookup_insert_ne hkey, h key]
  | drop key' =>
    by_cases hkey : key = key'
    · subst hkey
      simp only [Replay.Edit.apply, AList.lookup_erase]
    · simp only [Replay.Edit.apply, AList.lookup_erase_ne hkey, h key]

/-- The stores behind the changes of a log are read back as they were written. -/
def ReadsBack (format : Format) (store : Store) (log : List Change) : Prop :=
  ∀ before rest written, log = before ++ rest → Same written (storeAfter store before) →
    ∃ read, format.parse (format.render written) = some read ∧ Same read written

theorem ReadsBack.of_append {format : Format} {store : Store} {log later : List Change}
    (h : ReadsBack format store (log ++ later)) : ReadsBack format store log := by
  rintro before rest written rfl
  exact h before (rest ++ later) written (by simp)

variable {format : Format} {start : Option (List UInt8)} {store : Store} {change : Change}
  {s : System Change UInt8 String Unit}

theorem contents_rendered {written read : Store} (h : format.parse (format.render written) = some read) :
    contents format (some (rendered format written)) = .ok read := by
  simp only [contents, rendered, decode_encode, h]

/-- A call that answers well makes its edit. -/
theorem serve_spec {file text : Option (List UInt8)} {read : Store} (hfile : contents format file = .ok read)
    (hserve : serve format change file = (.ok (), text)) :
    text = some (rendered format ((edit change).apply read)) ∨
      text = none ∧ Same ((edit change).apply read) read := by
  cases change with
  | trust sha256 name runner now =>
    unfold serve at hserve
    cases hcheck : checkTrust sha256 runner with
    | error message => simp [hcheck] at hserve
    | ok _ =>
      simp only [hcheck, hfile, Prod.mk.injEq, true_and] at hserve
      exact .inl hserve.symm
  | untrust sha256 =>
    simp only [serve, hfile] at hserve
    cases hlookup : read.lookup (toAsciiLowercase sha256) with
    | some value =>
      simp only [hlookup, Prod.mk.injEq, true_and] at hserve
      exact .inl hserve.symm
    | none =>
      -- an entry that is not there need not be dropped
      simp only [hlookup, Prod.mk.injEq, true_and] at hserve
      refine .inr ⟨hserve.symm, fun key => ?_⟩
      by_cases hkey : key = toAsciiLowercase sha256
      · subst hkey
        simp only [edit, Replay.Edit.apply, AList.lookup_erase, hlookup]
      · simp only [edit, Replay.Edit.apply, AList.lookup_erase_ne hkey]

/-- The file behind the calls of a log reads as the store behind their changes. -/
theorem contents_after (hstart : contents format start = .ok store) {log : List (ℕ × Change)}
    (hserved : ∀ before e rest, log = before ++ e :: rest →
      ∃ a text, serve format e.2 (after (serve format) start before) = (.ok a, text))
    (hread : ReadsBack format store (log.map Prod.snd)) :
    ∃ read, contents format (after (serve format) start log) = .ok read ∧
      Same read (storeAfter store (log.map Prod.snd)) := by
  induction log using List.reverseRecOn with
  | nil => exact ⟨store, hstart, fun _ => rfl⟩
  | append_singleton log e ih =>
    rw [List.map_append] at hread ⊢
    obtain ⟨read, hcontents, hsame⟩ := ih
      (fun before e' rest hsplit => hserved before e' (rest ++ [e]) (by simp [hsplit])) hread.of_append
    obtain ⟨a, text, hserve⟩ := hserved log e [] rfl
    have hedit : Same ((edit e.2).apply read) (storeAfter store (log.map Prod.snd ++ [e.2])) := by
      rw [storeAfter_concat]
      exact hsame.apply _
    rw [after_concat, hserve]
    obtain rfl | ⟨rfl, hnothing⟩ := serve_spec hcontents hserve
    · obtain ⟨read', hparse, hsame'⟩ := hread _ [] _ (List.append_nil _).symm hedit
      exact ⟨read', contents_rendered hparse, fun key => (hsame' key).trans (hedit key)⟩
    · exact ⟨read, hcontents, fun key => (hnothing key).symm.trans (hedit key)⟩

/-- Whatever the interleaving of the calls of `trust_file` and `untrust_file`, and whichever system calls fail or
are cut off: the store is what the changes of the log leave one after another, no change is made twice, a change
that was answered well has been made, and one that was answered with an error has not. Only a power loss undoes
changes. -/
theorem trust_serial (h : Reachable (callSteps format) True start s) (hstart : contents format start = .ok store)
    (hread : ReadsBack format store (s.log.map Prod.snd)) :
    (∃ read, contents format s.store = .ok read ∧ Same read (storeAfter store (s.log.map Prod.snd))) ∧
      ((s.log ++ s.lost).map Prod.fst).Nodup ∧
      (∀ i c, s.calls[i]? = some c → c.state = .returned (.ok ()) → (i, c.op) ∈ s.log ++ s.lost) ∧
      (∀ i c e, s.calls[i]? = some c → c.state = .returned (.error e) → (i, c.op) ∉ s.log ++ s.lost) ∧
      (s.outages = 0 → s.lost = []) ∧
      ∀ s', Relation.ReflTransGen (Step (callSteps format) True) s s' →
        s.outages < s'.outages ∨ s'.outages = s.outages ∧ s.log <+: s'.log := by
  have hlinear := linear_of_reachable (wp_callSteps format True) h
  refine ⟨?_, hlinear.once, fun i c hcall hstate => (hlinear.returned i c () hcall hstate).1,
    fun i c e hcall hstate => hlinear.failed i c e hcall hstate, hlinear.outages, fun _ => log_prefix_of_steps⟩
  rw [hlinear.store]
  exact contents_after hstart hlinear.served hread

/-- The runner that an entry names. -/
theorem trustedRunner_eq_some {file : Option (List UInt8)} {read : Store} {sha256 runner : String}
    (hfile : contents format file = .ok read) :
    trustedRunner format file sha256 = some runner ↔
      (∃ value, read.lookup sha256 = some value ∧ (value.get "runner").bind Value.asStr = some runner) ∧
        (runner = runnerBottles ∨ runner = runnerUmu) := by
  simp only [trustedRunner, hfile, Except.toOption, Option.getD_some, Option.filter_eq_some_iff,
    Option.bind_eq_some_iff, decide_eq_true_eq]

theorem asStr_entry (name runner : String) (now : UInt64) :
    ((entry name runner now).get "runner").bind Value.asStr = some runner := rfl

/-- A call of the log that trusts a file passed the checks. -/
theorem checkTrust_of_serve {sha256 name runner : String} {now : UInt64} {file text : Option (List UInt8)}
    {a : Unit} (h : serve format (.trust sha256 name runner now) file = (.ok a, text)) :
    runner = runnerBottles ∨ runner = runnerUmu := by
  unfold serve at h
  cases hcheck : checkTrust sha256 runner with
  | error message => simp [hcheck] at h
  | ok _ =>
    by_contra hunknown
    rw [not_or] at hunknown
    rw [checkTrust, if_pos hunknown] at hcheck
    cases hcheck

/-- From a home without a store: a runner is trusted with the files of a hash exactly if the last change of the
log that is about the hash is a call of `trust_file` for this runner; that call did not report a failure. -/
theorem trusted_iff (h : Reachable (callSteps format) True none s)
    (hread : ReadsBack format ∅ (s.log.map Prod.snd)) (sha256 runner : String) :
    trustedRunner format s.store sha256 = some runner ↔
      ∃ before i digest name now rest c, s.log = before ++ (i, .trust digest name runner now) :: rest ∧
        toAsciiLowercase digest = sha256 ∧ (∀ e ∈ rest, e.2.digest ≠ sha256) ∧
        s.calls[i]? = some c ∧ c.op = .trust digest name runner now ∧ ∀ e, c.state ≠ .returned (.error e) := by
  have hlinear := linear_of_reachable (wp_callSteps format True) h
  obtain ⟨read, hcontents, hsame⟩ := contents_after rfl hlinear.served hread
  rw [← hlinear.store] at hcontents
  have hlookup (value : Value) : read.lookup sha256 = some value ↔ ∃ before op rest,
      s.log.map Prod.snd = before ++ op :: rest ∧ edit op = .put sha256 value ∧
        ∀ op' ∈ rest, ¬ (edit op').Concerns sha256 := by
    rw [hsame sha256]
    exact Replay.lookup_replay_eq_some
  rw [trustedRunner_eq_some hcontents]
  constructor
  · rintro ⟨⟨value, hvalue, hrunner⟩, -⟩
    obtain ⟨before, op, rest, hsplit, hput, hlast⟩ := (hlookup value).1 hvalue
    obtain ⟨front, tail, hlog, -, htail⟩ := List.map_eq_append_iff.1 hsplit
    obtain ⟨e, behind, rfl, rfl, rfl⟩ := List.map_eq_cons_iff.1 htail
    obtain ⟨i, op⟩ := e
    cases op with
    | untrust digest => cases hput
    | trust digest name runner' now =>
      cases hput
      cases hrunner
      have hmem : (i, Change.trust digest name runner now) ∈ s.log ++ s.lost := by simp [hlog]
      obtain ⟨c, hcall, hop⟩ := hlinear.known _ hmem
      refine ⟨front, i, digest, name, now, behind, c, hlog, rfl, fun e he hdigest => ?_, hcall, hop,
        fun e hstate => ?_⟩
      · exact hlast e.2 (List.mem_map_of_mem he) (concerns_edit.2 hdigest)
      · refine hlinear.failed i c e hcall hstate ?_
        rwa [hop]
  · rintro ⟨before, i, digest, name, now, rest, -, hlog, rfl, hlast, -⟩
    refine ⟨⟨entry name runner now, (hlookup _).2 ⟨before.map Prod.snd, .trust digest name runner now,
      rest.map Prod.snd, ?_, rfl, ?_⟩, asStr_entry name runner now⟩, ?_⟩
    · rw [hlog, List.map_append, List.map_cons]
    · intro op' hop'
      obtain ⟨e, he, rfl⟩ := List.mem_map.1 hop'
      exact fun hconcerns => hlast e he (concerns_edit.1 hconcerns)
    · obtain ⟨a, text, hserve⟩ := hlinear.served before _ rest hlog
      exact checkTrust_of_serve hserve

/-- No call answers well to a store that cannot be read. -/
theorem serve_of_corrupt (change : Change) {file : Option (List UInt8)} {message : String}
    (h : contents format file = .error message) : ∃ e, serve format change file = (.error e, none) := by
  cases change with
  | trust sha256 name runner now =>
    cases hcheck : checkTrust sha256 runner with
    | error e => exact ⟨e, by simp [serve, hcheck]⟩
    | ok _ => exact ⟨message, by simp [serve, hcheck, h]⟩
  | untrust sha256 => exact ⟨message, by simp only [serve, h]⟩

/-- A store that is no JSON map, or no text, is never replaced: no call makes an entry in it or answers well, and
no runner is trusted. -/
theorem corrupt_kept {message : String} (h : Reachable (callSteps format) True start s)
    (hcorrupt : contents format start = .error message) :
    s.store = start ∧ s.log = [] ∧
      (∀ (i : ℕ) (c : Call Change UInt8 String Unit), s.calls[i]? = some c → c.state ≠ .returned (.ok ())) ∧
      ∀ sha256, trustedRunner format s.store sha256 = none := by
  have hlinear := linear_of_reachable (wp_callSteps format True) h
  have hafter (log : List (ℕ × Change)) : after (serve format) start log = start := by
    induction log using List.reverseRecOn with
    | nil => rfl
    | append_singleton log e ih =>
      obtain ⟨e', hserve⟩ := serve_of_corrupt e.2 hcorrupt
      rw [after_concat, ih, hserve]
      rfl
  have hstore : s.store = start := hlinear.store.trans (hafter s.log)
  refine ⟨hstore, ?_, fun i c hcall hstate => ?_, fun sha256 => ?_⟩
  · cases hlog : s.log with
    | nil => rfl
    | cons e rest =>
      obtain ⟨a, text, hserve⟩ := hlinear.served [] e rest hlog
      obtain ⟨e', herror⟩ := serve_of_corrupt e.2 hcorrupt
      rw [hafter, herror] at hserve
      cases hserve
  · obtain ⟨-, earlier, text, hserve, -⟩ := hlinear.returned i c () hcall hstate
    obtain ⟨e', herror⟩ := serve_of_corrupt c.op hcorrupt
    rw [hafter, herror] at hserve
    cases hserve
  · rw [hstore, trustedRunner, hcorrupt]
    rfl

/-- The hash of a file. -/
def sampleDigest : String := String.ofList (List.replicate 64 'a')

/-- The text of a store with one entry. -/
def sampleText : List Char :=
  '\x7b' :: '\"' :: (List.replicate 64 'a' ++
    "\":\x7b\"at\":5,\"name\":\"setup.exe\",\"runner\":\"umu\"\x7d\x7d".toList)

def sampleStore : Store := (∅ : Store).insert (toAsciiLowercase sampleDigest) (entry "setup.exe" "umu" 5)

/-- A reader and a writer that know the empty store and the store with one entry. -/
def sampleFormat : Format where
  parse text :=
    if text = sampleText then some sampleStore else if text = ['\x7b', '\x7d'] then some ∅ else none
  render store := if (store.lookup (toAsciiLowercase sampleDigest)).isSome then sampleText else ['\x7b', '\x7d']

/-- A call that trusts a file, and one that trusts it with an unknown runner. -/
def sampleCalls : System Change UInt8 String Unit where
  store := some (rendered sampleFormat sampleStore)
  calls := [⟨.trust sampleDigest "setup.exe" "umu" 5, .returned (.ok ()), true, true⟩,
    ⟨.trust sampleDigest "setup.exe" "wine" 6, .returned (.error "unknown runner"), false, false⟩]
  log := [(0, .trust sampleDigest "setup.exe" "umu" 5)]

theorem checkTrust_sample : checkTrust sampleDigest "umu" = .ok () := by decide

theorem callSteps_sample : callSteps sampleFormat (.trust sampleDigest "setup.exe" "umu" 5) =
    (do
      storeLock
      let store ← loadTrustStrict sampleFormat
      storeTrust sampleFormat (store.insert (toAsciiLowercase sampleDigest) (entry "setup.exe" "umu" 5)) :
        Run UInt8 String Unit).run := by
  dsimp only [callSteps, trustFile]
  rw [checkTrust_sample]

theorem reachable_sampleCalls : Reachable (callSteps sampleFormat) True none sampleCalls := by
  have h : Reachable (callSteps sampleFormat) True none _ := .refl
  have h := h.tail (.begins _ (.trust sampleDigest "setup.exe" "umu" 5))
  rw [callSteps_sample] at h
  have h := h.tail (.begins _ (.trust sampleDigest "setup.exe" "wine" 6))
  have h := h.tail (.attempts (i := 0) ⟨rfl, rfl⟩ (.ok ()))
  have h := h.tail (.attempts (i := 0) ⟨rfl, rfl⟩ (.ok ()))
  have h := h.tail (.returns (i := 1) ⟨rfl, rfl⟩)
  have h := h.tail (.locks (i := 0) ⟨rfl, rfl⟩ rfl)
  have h := h.tail (.reads (i := 0) ⟨rfl, rfl⟩)
  have h := h.tail (.creates (i := 0) ⟨rfl, rfl⟩)
  have h := h.tail
    (.writes (i := 0) ⟨rfl, rfl⟩ (rendered sampleFormat sampleStore) [] (List.append_nil _).symm rfl)
  have h := h.tail (.writesAll (i := 0) ⟨rfl, rfl⟩)
  have h := h.tail (.syncs (i := 0) ⟨rfl, rfl⟩ rfl)
  have h := h.tail (.renames (i := 0) ⟨rfl, rfl⟩ rfl)
  have h := h.tail (.syncsDir (i := 0) ⟨rfl, rfl⟩)
  have h := h.tail (.returns (i := 0) ⟨rfl, rfl⟩)
  exact h

theorem sampleText_ne : sampleText ≠ ['\x7b', '\x7d'] := by simp [sampleText]

theorem readsBack_sampleCalls : ReadsBack sampleFormat ∅ (sampleCalls.log.map Prod.snd) := by
  intro before rest written hsplit hsame
  have hlookup := hsame (toAsciiLowercase sampleDigest)
  match before, hsplit with
  | [], _ =>
    have hnone : written.lookup (toAsciiLowercase sampleDigest) = none := hlookup
    refine ⟨∅, ?_, fun key => (hsame key).symm⟩
    simp [sampleFormat, hnone, sampleText_ne.symm]
  | [change], hsplit =>
    obtain rfl : Change.trust sampleDigest "setup.exe" "umu" 5 = change := (List.cons.inj hsplit).1
    have hsome : written.lookup (toAsciiLowercase sampleDigest) = some (entry "setup.exe" "umu" 5) :=
      hlookup.trans (AList.lookup_insert _)
    refine ⟨sampleStore, ?_, fun key => (hsame key).symm⟩
    simp [sampleFormat, hsome]
  | _ :: _ :: _, hsplit => cases hsplit

theorem trust_serial_sampleCalls :
    (∃ read, contents sampleFormat sampleCalls.store = .ok read ∧
        Same read (storeAfter ∅ (sampleCalls.log.map Prod.snd))) ∧
      ((sampleCalls.log ++ sampleCalls.lost).map Prod.fst).Nodup ∧
      (∀ i c, sampleCalls.calls[i]? = some c → c.state = .returned (.ok ()) →
        (i, c.op) ∈ sampleCalls.log ++ sampleCalls.lost) ∧
      (∀ i c e, sampleCalls.calls[i]? = some c → c.state = .returned (.error e) →
        (i, c.op) ∉ sampleCalls.log ++ sampleCalls.lost) ∧
      (sampleCalls.outages = 0 → sampleCalls.lost = []) ∧
      ∀ s', Relation.ReflTransGen (Step (callSteps sampleFormat) True) sampleCalls s' →
        sampleCalls.outages < s'.outages ∨ s'.outages = sampleCalls.outages ∧ sampleCalls.log <+: s'.log :=
  trust_serial reachable_sampleCalls rfl readsBack_sampleCalls

theorem trusted_iff_sampleCalls :
    trustedRunner sampleFormat sampleCalls.store sampleDigest = some "umu" ↔
      ∃ before i digest name now rest c,
        sampleCalls.log = before ++ (i, .trust digest name "umu" now) :: rest ∧
          toAsciiLowercase digest = sampleDigest ∧ (∀ e ∈ rest, e.2.digest ≠ sampleDigest) ∧
          sampleCalls.calls[i]? = some c ∧ c.op = .trust digest name "umu" now ∧
          ∀ e, c.state ≠ .returned (.error e) :=
  trusted_iff reachable_sampleCalls readsBack_sampleCalls sampleDigest "umu"

/-- A call on a store whose text is no JSON map. -/
def corruptCall : System Change UInt8 String Unit where
  store := some (encode ['['])
  calls := [⟨.untrust sampleDigest, .returned (.error corrupt), false, false⟩]

theorem contents_corrupt : contents sampleFormat (some (encode ['['])) = .error corrupt := by
  have hparse : sampleFormat.parse ['['] = none := by
    simp [sampleFormat, sampleText]
  simp only [contents, decode_encode, hparse]

theorem reachable_corruptCall :
    Reachable (callSteps sampleFormat) True (some (encode ['['])) corruptCall := by
  have h : Reachable (callSteps sampleFormat) True (some (encode ['['])) _ := .refl
  have h := h.tail (.begins _ (.untrust sampleDigest))
  have h := h.tail (.attempts (i := 0) ⟨rfl, rfl⟩ (.ok ()))
  have h := h.tail (.attempts (i := 0) ⟨rfl, rfl⟩ (.ok ()))
  have h := h.tail (.locks (i := 0) ⟨rfl, rfl⟩ rfl)
  have h := h.tail (.reads (i := 0) ⟨rfl, rfl⟩)
  -- the error of the read is what the call returns
  obtain ⟨p, rfl, h⟩ : ∃ p, p = Proc.done (.error corrupt) ∧
      Reachable (callSteps sampleFormat) True (some (encode ['[']))
        { store := some (encode ['[']), holder := some 0,
          calls := [⟨.untrust sampleDigest, .running p, false, false⟩] } := by
    refine ⟨_, ?_, h⟩
    show ExceptT.bindCont _ (contents sampleFormat (some (encode ['[']))) = _
    rw [contents_corrupt]
    rfl
  have h := h.tail (.returns (i := 0) ⟨rfl, rfl⟩)
  exact h

theorem corrupt_kept_corruptCall :
    corruptCall.store = some (encode ['[']) ∧ corruptCall.log = [] ∧
      (∀ (i : ℕ) (c : Call Change UInt8 String Unit), corruptCall.calls[i]? = some c →
        c.state ≠ .returned (.ok ())) ∧
      ∀ sha256, trustedRunner sampleFormat corruptCall.store sha256 = none :=
  corrupt_kept reachable_corruptCall contents_corrupt

end Kyth.Trust
