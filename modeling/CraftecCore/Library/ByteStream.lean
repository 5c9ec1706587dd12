import CraftecCore.Library.Bytes

/-!
# ByteStream — sources and sinks that move bytes in chunks

A source delivers bytes in order, in chunks of its own choosing; a sink takes as much of what it is
offered as it likes, but never nothing.  The loops that read an exact number of bytes, or write all
of them, do not depend on these choices: they are taking from, and appending to, one list of bytes.
-/

namespace ByteStream

inductive IoError
  | unexpectedEof
  | writeZero
  | invalidData (message : String)
  deriving DecidableEq, Repr

/-! ## Sources -/

/-- A source that delivers its bytes in order. -/
class ByteSource (S : Type) where
  /-- The bytes still to come. -/
  rest : S → List UInt8
  /-- One read of at most `n` bytes. -/
  read : ℕ → S → List UInt8 × S
  read_append_rest : ∀ n s, (read n s).1 ++ rest (read n s).2 = rest s
  length_read_le : ∀ n s, (read n s).1.length ≤ n
  /-- Only at the end nothing is read. -/
  rest_eq_nil : ∀ n s, 0 < n → (read n s).1 = [] → rest s = []

section Source

variable {S : Type} [ByteSource S]

open ByteSource

def readExact (n : ℕ) (s : S) : Except IoError (List UInt8) × S :=
  if n = 0 then
    (.ok [], s)
  else if (read n s).1 = [] then
    (.error .unexpectedEof, (read n s).2)
  else
    match readExact (n - (read n s).1.length) (read n s).2 with
    | (.ok more, s') => (.ok ((read n s).1 ++ more), s')
    | (.error err, s') => (.error err, s')
termination_by n
decreasing_by
  rename_i hzero hgot
  have hpos : 0 < (read n s).1.length := List.length_pos_iff.2 hgot
  omega

/-- Bytes that are there are read, and the others are left. -/
theorem readExact_append (bytes tail : List UInt8) (s : S) (h : rest s = bytes ++ tail) :
    ∃ s', readExact bytes.length s = (.ok bytes, s') ∧ rest s' = tail := by
  by_cases hzero : bytes.length = 0
  · have hnil : bytes = [] := List.eq_nil_of_length_eq_zero hzero
    refine ⟨s, by rw [readExact, if_pos hzero, hnil], by simpa [hnil] using h⟩
  have hsplit := read_append_rest bytes.length s
  have hle := length_read_le bytes.length s
  have hgot : (read bytes.length s).1 ≠ [] := by
    intro hnil
    have hend := rest_eq_nil bytes.length s (Nat.pos_of_ne_zero hzero) hnil
    rw [h, List.append_eq_nil_iff] at hend
    exact hzero (by rw [hend.1, List.length_nil])
  have hpos : 0 < (read bytes.length s).1.length := List.length_pos_iff.2 hgot
  -- what came first is the front of the bytes
  rw [h] at hsplit
  have hfront : (read bytes.length s).1 = bytes.take (read bytes.length s).1.length := by
    have htake := congrArg (List.take (read bytes.length s).1.length) hsplit
    rwa [List.take_left, List.take_append_of_le_length hle] at htake
  have hjoin : (read bytes.length s).1 ++ bytes.drop (read bytes.length s).1.length = bytes := by
    nth_rewrite 1 [hfront]
    exact List.take_append_drop _ _
  have hback : rest (read bytes.length s).2 =
      bytes.drop (read bytes.length s).1.length ++ tail := by
    have hdrop := congrArg (List.drop (read bytes.length s).1.length) hsplit
    rwa [List.drop_left, List.drop_append_of_le_length hle] at hdrop
  have hlt : (bytes.drop (read bytes.length s).1.length).length < bytes.length := by
    rw [List.length_drop]
    omega
  rcases readExact_append _ tail _ hback with ⟨s', hrun, hrest⟩
  refine ⟨s', ?_, hrest⟩
  rw [List.length_drop] at hrun
  rw [readExact, if_neg hzero, if_neg hgot, hrun]
  simp only [hjoin]
termination_by bytes.length

/-- Too few bytes are an error, and nothing is left. -/
theorem readExact_short (n : ℕ) (s : S) (h : (rest s).length < n) :
    ∃ s', readExact n s = (.error .unexpectedEof, s') ∧ rest s' = [] := by
  have hzero : n ≠ 0 := Nat.ne_of_gt (Nat.zero_lt_of_lt h)
  have hsplit := read_append_rest n s
  by_cases hgot : (read n s).1 = []
  · have hend := rest_eq_nil n s (Nat.pos_of_ne_zero hzero) hgot
    refine ⟨(read n s).2, by rw [readExact, if_neg hzero, if_pos hgot], ?_⟩
    rw [hgot, hend] at hsplit
    exact hsplit
  · have hpos : 0 < (read n s).1.length := List.length_pos_iff.2 hgot
    have hlen := congrArg List.length hsplit
    rw [List.length_append] at hlen
    have hshort : (rest (read n s).2).length < n - (read n s).1.length := by omega
    have hlt : n - (read n s).1.length < n := by omega
    rcases readExact_short _ _ hshort with ⟨s', hrun, hrest⟩
    exact ⟨s', by rw [readExact, if_neg hzero, if_neg hgot, hrun], hrest⟩
termination_by n

/-- The bytes that were read were the next ones. -/
theorem readExact_eq_ok {n : ℕ} {s s' : S} {bytes : List UInt8}
    (h : readExact n s = (.ok bytes, s')) : bytes.length = n ∧ rest s = bytes ++ rest s' := by
  rcases Nat.lt_or_ge (rest s).length n with hshort | hle
  · rcases readExact_short n s hshort with ⟨s'', hrun, -⟩
    simp [hrun] at h
  · have hlen : ((rest s).take n).length = n := by simpa using hle
    rcases readExact_append _ _ s (List.take_append_drop n (rest s)).symm with ⟨s'', hrun, hrest⟩
    rw [hlen, h, Prod.mk.injEq, Except.ok.injEq] at hrun
    rcases hrun with ⟨rfl, rfl⟩
    exact ⟨hlen, by rw [hrest, List.take_append_drop]⟩

end Source

/-! ## Sinks -/

/-- A sink that keeps what it took in order. -/
class ByteSink (S : Type) where
  /-- The bytes taken so far. -/
  written : S → List UInt8
  /-- One write: the number of bytes taken from the front. -/
  write : List UInt8 → S → ℕ × S
  flush : S → S
  written_write : ∀ data s, written (write data s).2 = written s ++ data.take (write data s).1
  write_pos : ∀ data s, data ≠ [] → 0 < (write data s).1
  written_flush : ∀ s, written (flush s) = written s

section Sink

variable {S : Type} [ByteSink S]

open ByteSink

def writeAll (data : List UInt8) (s : S) : Except IoError Unit × S :=
  if data = [] then
    (.ok (), s)
  else if (write data s).1 = 0 then
    (.error .writeZero, (write data s).2)
  else
    writeAll (data.drop (write data s).1) (write data s).2
termination_by data.length
decreasing_by
  rename_i hdata hzero
  have hpos : 0 < data.length := List.length_pos_iff.2 hdata
  rw [List.length_drop]
  omega

theorem writeAll_spec (data : List UInt8) (s : S) :
    ∃ s', writeAll data s = (.ok (), s') ∧ written s' = written s ++ data := by
  by_cases hdata : data = []
  · exact ⟨s, by rw [writeAll, if_pos hdata], by simp [hdata]⟩
  · have hpos := write_pos data s hdata
    have hlt : (data.drop (write data s).1).length < data.length := by
      have hlen : 0 < data.length := List.length_pos_iff.2 hdata
      rw [List.length_drop]
      omega
    rcases writeAll_spec (data.drop (write data s).1) (write data s).2 with ⟨s', hrun, hwritten⟩
    refine ⟨s', ?_, ?_⟩
    · rw [writeAll, if_neg hdata, if_neg (Nat.pos_iff_ne_zero.1 hpos), hrun]
    · rw [hwritten, written_write, List.append_assoc, List.take_append_drop]
termination_by data.length

end Sink

/-! ## Bytes in memory -/

structure Chunks where
  chunks : List (List UInt8)
  deriving DecidableEq

def readChunks (n : ℕ) : List (List UInt8) → List UInt8 × List (List UInt8)
  | [] => ([], [])
  | [] :: chunks => readChunks n chunks
  | (b :: bs) :: chunks => ((b :: bs).take n, (b :: bs).drop n :: chunks)

theorem readChunks_append (n : ℕ) : ∀ chunks : List (List UInt8),
    (readChunks n chunks).1 ++ (readChunks n chunks).2.flatten = chunks.flatten
  | [] => rfl
  | [] :: chunks => readChunks_append n chunks
  | (b :: bs) :: chunks => by
      simp only [readChunks, List.flatten_cons, ← List.append_assoc, List.take_append_drop]

theorem length_readChunks_le (n : ℕ) : ∀ chunks : List (List UInt8),
    (readChunks n chunks).1.length ≤ n
  | [] => Nat.zero_le n
  | [] :: chunks => length_readChunks_le n chunks
  | (b :: bs) :: _ => List.length_take_le n (b :: bs)

theorem flatten_eq_nil_of_readChunks {n : ℕ} (hn : 0 < n) : ∀ chunks : List (List UInt8),
    (readChunks n chunks).1 = [] → chunks.flatten = []
  | [], _ => rfl
  | [] :: chunks, h => flatten_eq_nil_of_readChunks hn chunks h
  | (b :: bs) :: chunks, h => by
      cases n with
      | zero => exact absurd hn (Nat.lt_irrefl 0)
      | succ n => simp [readChunks] at h

instance : ByteSource Chunks where
  rest s := s.chunks.flatten
  read n s := ((readChunks n s.chunks).1, { chunks := (readChunks n s.chunks).2 })
  read_append_rest n s := readChunks_append n s.chunks
  length_read_le n s := length_readChunks_le n s.chunks
  rest_eq_nil _ s hn h := flatten_eq_nil_of_readChunks hn s.chunks h

structure Buffer where
  bytes : List UInt8
  deriving DecidableEq

instance : ByteSink Buffer where
  written s := s.bytes
  write data s := (data.length, { bytes := s.bytes ++ data })
  flush s := s
  written_write data s := by simp
  write_pos data s h := List.length_pos_iff.2 h
  written_flush s := rfl

end ByteStream
