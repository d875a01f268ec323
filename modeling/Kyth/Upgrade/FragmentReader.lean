import Kyth.Lib.Pieces

/-!
# Reading progress fragments (`safe_upgrade_bin.rs`)

`read_progress_fragment` reads standard error through a buffered reader, which offers the stream in
chunks of its own choosing. A fragment ends behind a newline or a carriage return, and keeps no more
than `limit` bytes. `readFragments_eq` says that the chunks do not matter: the fragments are the
pieces of the stream, cut at the limit.
-/

namespace Kyth.Upgrade

open Pieces

/-- A buffered reader: the chunks that it still has to offer, none of them empty. -/
structure BufReader where
  chunks : List (List UInt8)
  nonempty : [] ∉ chunks

namespace BufReader

/-- The bytes that are still to be read. -/
def bytes (r : BufReader) : List UInt8 := r.chunks.flatten

/-- `fill_buf`, empty at the end of the stream. -/
def fillBuf (r : BufReader) : List UInt8 := r.chunks.headD []

/-- `consume`. -/
def consume (r : BufReader) (n : ℕ) : BufReader :=
  match r with
  | ⟨[], h⟩ => ⟨[], h⟩
  | ⟨chunk :: chunks, h⟩ =>
      if hrest : chunk.drop n = [] then ⟨chunks, fun hmem => h (List.mem_cons_of_mem _ hmem)⟩
      else ⟨chunk.drop n :: chunks, fun hmem => by
        obtain hnil | hmem := List.mem_cons.1 hmem
        · exact hrest hnil.symm
        · exact h (List.mem_cons_of_mem _ hmem)⟩

/-- At the end of the stream there is nothing left to read. -/
theorem fillBuf_eq_nil {r : BufReader} : r.fillBuf = [] ↔ r.bytes = [] := by
  rcases r with ⟨chunks, h⟩
  cases chunks with
  | nil => exact iff_of_true rfl rfl
  | cons chunk chunks =>
    have hne : chunk ≠ [] := fun hnil => h (by rw [hnil]; exact List.mem_cons_self)
    refine iff_of_false hne fun hbytes => hne ?_
    exact (List.append_eq_nil_iff.1 hbytes).1

theorem bytes_consume (r : BufReader) {n : ℕ} (hn : n ≤ r.fillBuf.length) :
    (r.consume n).bytes = r.bytes.drop n := by
  rcases r with ⟨chunks, h⟩
  cases chunks with
  | nil => simp [consume, bytes]
  | cons chunk chunks =>
    have hdrop : (chunk ++ chunks.flatten).drop n = chunk.drop n ++ chunks.flatten :=
      List.drop_append_of_le_length hn
    rw [consume]
    split_ifs with hrest
    · show chunks.flatten = (chunk ++ chunks.flatten).drop n
      rw [hdrop, hrest, List.nil_append]
    · exact hdrop.symm

theorem exists_bytes_eq (r : BufReader) : ∃ rest, r.bytes = r.fillBuf ++ rest := by
  rcases r with ⟨chunks, h⟩
  cases chunks with
  | nil => exact ⟨[], rfl⟩
  | cons chunk chunks => exact ⟨chunks.flatten, rfl⟩

end BufReader

/-- The bytes that end a fragment: newline and carriage return. -/
def isDelimiter (byte : UInt8) : Bool := byte == 10 || byte == 13

/-- The number of bytes that a turn takes from a chunk. -/
def consumed (available : List UInt8) : ℕ :=
  ((available.findIdx? isDelimiter).map (· + 1)).getD available.length

theorem consumed_le (available : List UInt8) : consumed available ≤ available.length := by
  rw [consumed]
  obtain ⟨before, d, after, rfl, -, -, hindex⟩ | ⟨-, hindex⟩ := delimiter_cases isDelimiter available
  · simp [hindex]
  · simp [hindex]

theorem consumed_pos {available : List UInt8} (h : available ≠ []) : 0 < consumed available := by
  rw [consumed]
  cases available.findIdx? isDelimiter with
  | none => exact List.length_pos_iff.2 h
  | some index => exact Nat.succ_pos index

theorem length_consume_lt {r : BufReader} (h : r.fillBuf ≠ []) :
    (r.consume (consumed r.fillBuf)).bytes.length < r.bytes.length := by
  have hpos := consumed_pos h
  have hbytes : r.bytes ≠ [] := fun hnil => h (BufReader.fillBuf_eq_nil.2 hnil)
  have hlength := List.length_pos_iff.2 hbytes
  rw [r.bytes_consume (consumed_le _), List.length_drop]
  omega

/-- The loop of `read_progress_fragment`: the result, the fragment and the reader. -/
def readLoop (limit : ℕ) (fragment : List UInt8) (truncated : Bool) (r : BufReader) :
    Option Bool × List UInt8 × BufReader :=
  let available := r.fillBuf
  if h : available = [] then
    (if fragment = [] ∧ truncated = false then none else some truncated, fragment, r)
  else
    let copied := min (consumed available) (limit - fragment.length)
    let fragment' := fragment ++ available.take copied
    let truncated' := truncated || decide (copied < consumed available)
    if (available.findIdx? isDelimiter).isSome then
      (some truncated', fragment', r.consume (consumed available))
    else
      readLoop limit fragment' (truncated' || fragment'.length == limit)
        (r.consume (consumed available))
termination_by r.bytes.length
decreasing_by exact length_consume_lt h

/-- `read_progress_fragment`. -/
def readProgressFragment (limit : ℕ) (r : BufReader) : Option Bool × List UInt8 × BufReader :=
  readLoop limit [] false r

/-! ### One fragment -/

/-- A piece of the stream as a fragment: its first bytes, and whether it is flagged as truncated. -/
def cutPiece (limit : ℕ) (piece : List UInt8) : List UInt8 × Bool :=
  (piece.take limit, decide (limit < piece.length ∨
    (piece.take limit).length = limit ∧ (piece.take limit).all fun byte => !isDelimiter byte))

variable {limit : ℕ} {before q : List UInt8} {d : UInt8}

/-- A piece that ends in its delimiter is flagged when it is longer than the limit. -/
theorem cutPiece_delimited (hd : isDelimiter d = true) :
    (cutPiece limit (before ++ [d])).2 = decide (limit < before.length + 1) := by
  rw [cutPiece, decide_eq_decide, List.length_append, List.length_singleton]
  refine ⟨?_, .inl⟩
  rintro (h | ⟨-, hnone⟩)
  · exact h
  · by_contra hle
    rw [List.take_of_length_le (by simpa using hle)] at hnone
    have hlast := List.all_eq_true.1 hnone d (List.mem_append_right _ List.mem_cons_self)
    rw [hd] at hlast
    cases hlast

/-- A piece without a delimiter is flagged when it fills the fragment. -/
theorem cutPiece_open (hq : ∀ byte ∈ q, isDelimiter byte = false) :
    (cutPiece limit q).2 = decide (limit ≤ q.length) := by
  rw [cutPiece, decide_eq_decide, List.length_take]
  constructor
  · rintro (h | ⟨h, -⟩) <;> omega
  · intro h
    refine .inr ⟨by omega, List.all_eq_true.2 fun byte hbyte => ?_⟩
    rw [hq byte (List.mem_of_mem_take hbyte), Bool.not_false]

/-- What a turn copies makes the fragment the beginning of what has been read. -/
theorem take_extend (limit n : ℕ) (q available : List UInt8) :
    q.take limit ++ available.take (min n (limit - (q.take limit).length)) =
      (q ++ available.take n).take limit := by
  rw [List.take_append, List.take_take, List.length_take, Nat.min_comm n]
  congr 2
  omega

/-- The loop on a piece that has begun with `q`, which it knows by its first bytes and by whether
they fill the fragment. -/
theorem readLoop_spec (hlimit : 1 ≤ limit) (r : BufReader) (q : List UInt8)
    (hq : ∀ byte ∈ q, isDelimiter byte = false) :
    (q ++ r.bytes = [] ∧
        readLoop limit (q.take limit) (decide (limit ≤ q.length)) r = (none, [], r)) ∨
      ∃ piece r', pieces isDelimiter (q ++ r.bytes) = piece :: pieces isDelimiter r'.bytes ∧
        readLoop limit (q.take limit) (decide (limit ≤ q.length)) r =
          (some (cutPiece limit piece).2, (cutPiece limit piece).1, r') := by
  induction hlength : r.bytes.length using Nat.strong_induction_on generalizing r q with
  | _ length ih =>
    rw [readLoop]
    by_cases hend : r.fillBuf = []
    · -- the end of the stream
      have hbytes := BufReader.fillBuf_eq_nil.1 hend
      rw [dif_pos hend, hbytes, List.append_nil]
      by_cases hnil : q = []
      · refine .inl ⟨hnil, ?_⟩
        rw [hnil, if_pos ⟨List.take_nil, decide_eq_false (by simp; omega)⟩, List.take_nil]
      · have hopen : ¬ (q.take limit = [] ∧ decide (limit ≤ q.length) = false) := by
          rintro ⟨htake, -⟩
          obtain hzero | hq := List.take_eq_nil_iff.1 htake
          · omega
          · exact hnil hq
        refine .inr ⟨q, r, ?_, ?_⟩
        · rw [pieces_open hq hnil, hbytes, pieces_nil]
        · rw [if_neg hopen, cutPiece_open hq]
          rfl
    · rw [dif_neg hend]
      have hcount := consumed_le r.fillBuf
      have hpos := consumed_pos hend
      have hflag : (decide (limit ≤ q.length) ||
          decide (min (consumed r.fillBuf) (limit - (q.take limit).length) <
            consumed r.fillBuf)) = decide (limit < q.length + consumed r.fillBuf) := by
        rw [← Bool.decide_or, decide_eq_decide, List.length_take]
        omega
      simp only [take_extend, hflag]
      obtain ⟨rest, hbytes⟩ := r.exists_bytes_eq
      have hconsume := r.bytes_consume hcount
      have hshorter := length_consume_lt hend
      obtain ⟨before, d, after, hchunk, hbefore, hd, hindex⟩ | ⟨hnone, hindex⟩ :=
        delimiter_cases isDelimiter r.fillBuf
      · -- the chunk has the delimiter of the piece
        have hconsumed : consumed r.fillBuf = before.length + 1 := by
          rw [consumed, hindex]
          rfl
        have hchunk' : r.fillBuf = (before ++ [d]) ++ after := by rw [hchunk]; simp
        have htake : r.fillBuf.take (consumed r.fillBuf) = before ++ [d] := by
          rw [hconsumed, hchunk', List.take_left' (by simp)]
        have hrest : (r.consume (consumed r.fillBuf)).bytes = after ++ rest := by
          rw [hconsume, hbytes, hconsumed, hchunk', List.append_assoc, List.drop_left' (by simp)]
        have hpiece : ∀ byte ∈ q ++ before, isDelimiter byte = false :=
          List.forall_mem_append.2 ⟨hq, hbefore⟩
        have hstream : q ++ r.bytes = (q ++ before) ++ d :: (after ++ rest) := by
          rw [hbytes, hchunk]
          simp
        refine .inr ⟨q ++ before ++ [d], r.consume (consumed r.fillBuf), ?_, ?_⟩
        · rw [hstream, pieces_delimited hpiece hd, hrest]
        · rw [hindex, if_pos (by rfl), cutPiece_delimited hd, htake, hconsumed, cutPiece,
            List.append_assoc, List.length_append, Nat.add_assoc]
      · -- the piece goes on behind the chunk
        have hconsumed : consumed r.fillBuf = r.fillBuf.length := by
          rw [consumed, hindex]
          rfl
        have hrest : (r.consume (consumed r.fillBuf)).bytes = rest := by
          rw [hconsume, hbytes, hconsumed, List.drop_left]
        have hq' : ∀ byte ∈ q ++ r.fillBuf, isDelimiter byte = false :=
          List.forall_mem_append.2 ⟨hq, hnone⟩
        have hfull : (decide (limit < q.length + consumed r.fillBuf) ||
            ((q ++ r.fillBuf).take limit).length == limit) =
              decide (limit ≤ (q ++ r.fillBuf).length) := by
          rw [beq_eq_decide, ← Bool.decide_or, decide_eq_decide, List.length_take,
            List.length_append, hconsumed]
          omega
        have hstream : q ++ r.bytes = (q ++ r.fillBuf) ++ (r.consume (consumed r.fillBuf)).bytes := by
          rw [hrest, hbytes, List.append_assoc]
        have hnext := ih _ (hlength ▸ hshorter) (r.consume (consumed r.fillBuf)) (q ++ r.fillBuf) hq'
          rfl
        rw [hindex, if_neg (by simp), hconsumed, List.take_length, ← hconsumed, hfull, hstream]
        obtain ⟨hnil, -⟩ | hpiece := hnext
        · exact absurd (List.append_eq_nil_iff.1 (List.append_eq_nil_iff.1 hnil).1).2 hend
        · exact .inr hpiece

/-! ### All fragments -/

theorem readLoop_length (limit : ℕ) (fragment : List UInt8) (truncated : Bool) (r : BufReader) :
    (readLoop limit fragment truncated r).2.2.bytes.length ≤ r.bytes.length := by
  fun_induction readLoop limit fragment truncated r with
  | case1 => exact le_refl _
  | case2 fragment truncated r available h => exact (length_consume_lt h).le
  | case3 fragment truncated r available h copied fragment' truncated' hnone ih =>
    exact ih.trans (length_consume_lt h).le

/-- A fragment takes at least one byte of the stream. -/
theorem readProgressFragment_lt (limit : ℕ) {truncated : Bool} {r : BufReader}
    (h : (readProgressFragment limit r).1 = some truncated) :
    (readProgressFragment limit r).2.2.bytes.length < r.bytes.length := by
  rw [readProgressFragment, readLoop] at h ⊢
  split_ifs at h ⊢ with hend
  · rename_i hopen
    exact absurd ⟨rfl, rfl⟩ hopen
  · exact length_consume_lt hend
  · exact (readLoop_length _ _ _ _).trans_lt (length_consume_lt hend)

/-- The calls of `read_progress_fragment` until it returns `None`: the fragments with their flags,
and the reader behind them. -/
def readFragments (limit : ℕ) (r : BufReader) : List (List UInt8 × Bool) × BufReader :=
  match h : readProgressFragment limit r with
  | (none, _, r') => ([], r')
  | (some truncated, fragment, r') =>
      let more := readFragments limit r'
      ((fragment, truncated) :: more.1, more.2)
termination_by r.bytes.length
decreasing_by
  have hlt := readProgressFragment_lt limit
    (show (readProgressFragment limit r).1 = some truncated by rw [h])
  rwa [h] at hlt

/-- However the stream is chunked, its fragments are its pieces, cut at the limit and flagged when
bytes were dropped or the limit was reached without a delimiter, and nothing is left unread. -/
theorem readFragments_eq (limit : ℕ) (hlimit : 1 ≤ limit) (r : BufReader) :
    (readFragments limit r).1 = (pieces isDelimiter r.bytes).map (cutPiece limit) ∧
      (readFragments limit r).2.bytes = [] := by
  induction hlength : r.bytes.length using Nat.strong_induction_on generalizing r with
  | _ length ih =>
    rw [readFragments]
    have hstart : readProgressFragment limit r =
        readLoop limit (([] : List UInt8).take limit) (decide (limit ≤ ([] : List UInt8).length)) r := by
      rw [readProgressFragment, List.take_nil, List.length_nil, decide_eq_false (by omega)]
    obtain ⟨hnil, hread⟩ | ⟨piece, r', hpieces, hread⟩ :=
      readLoop_spec hlimit r [] (List.forall_mem_nil _)
    · rw [List.nil_append] at hnil
      have hnone := hstart.trans hread
      split
      · rename_i fragment r' heq
        rw [hnone] at heq
        cases heq
        exact ⟨by rw [hnil]; rfl, hnil⟩
      · rename_i truncated fragment r' heq
        rw [hnone] at heq
        cases heq
    · rw [List.nil_append] at hpieces
      have hsome := hstart.trans hread
      have hlt : r'.bytes.length < length := by
        have hshorter := readProgressFragment_lt limit
          (show (readProgressFragment limit r).1 = some (cutPiece limit piece).2 by rw [hsome])
        rwa [hsome, hlength] at hshorter
      obtain ⟨hrest, hdone⟩ := ih _ hlt r' rfl
      split
      · rename_i fragment r'' heq
        rw [hsome] at heq
        cases heq
      · rename_i truncated fragment r'' heq
        rw [hsome] at heq
        cases heq
        refine ⟨?_, hdone⟩
        rw [hpieces, List.map_cons, ← hrest]

/-- Two progress updates and the beginning of a third, in chunks that cut across them. -/
def progressReader : BufReader where
  chunks := [[49, 48], [37, 13, 50], [48, 37], [13, 51, 48, 37]]
  nonempty := by decide

theorem readFragments_progress :
    (readFragments 3 progressReader).1 =
        [([49, 48, 37], true), ([50, 48, 37], true), ([51, 48, 37], true)] ∧
      (readFragments 3 progressReader).2.bytes = [] := by
  have h := readFragments_eq 3 (by decide) progressReader
  have hpieces : (pieces isDelimiter progressReader.bytes).map (cutPiece 3) =
      [([49, 48, 37], true), ([50, 48, 37], true), ([51, 48, 37], true)] := by decide
  rwa [hpieces] at h

end Kyth.Upgrade
