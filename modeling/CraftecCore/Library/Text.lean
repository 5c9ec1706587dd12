import Mathlib.Algebra.Order.Ring.Nat
import Mathlib.Data.List.DropRight

/-!
# Text — strings as bytes, and lines in a byte stream

Strings travel as UTF-8, and a stream of text is cut into lines at the byte of the newline.  Cutting
is unambiguous: a stream determines its complete lines and the unfinished rest.
-/

namespace Text

/-! ## UTF-8 -/

def utf8 (s : String) : List UInt8 :=
  s.toByteArray.data.toList

def fromUtf8 (bytes : List UInt8) : Option String :=
  String.fromUTF8? ⟨⟨bytes⟩⟩

@[simp] theorem utf8_append (s t : String) : utf8 (s ++ t) = utf8 s ++ utf8 t := by
  simp [utf8]

@[simp] theorem fromUtf8_utf8 (s : String) : fromUtf8 (utf8 s) = some s := by
  have hbytes : (⟨⟨utf8 s⟩⟩ : ByteArray) = s.toByteArray := rfl
  rw [fromUtf8, hbytes, String.fromUTF8?, dif_pos s.isValidUTF8]
  rfl

theorem utf8_of_fromUtf8 {bytes : List UInt8} {s : String} (h : fromUtf8 bytes = some s) :
    utf8 s = bytes := by
  rw [fromUtf8, String.fromUTF8?] at h
  split at h
  · cases h
    rfl
  · cases h

theorem utf8_eq_flatMap (s : String) : utf8 s = s.toList.flatMap String.utf8EncodeChar := by
  rw [utf8, ← String.utf8Encode_toList, List.utf8Encode, List.toList_data_toByteArray]

theorem length_utf8 (s : String) : (utf8 s).length = (s.toList.map Char.utf8Size).sum := by
  simp [utf8_eq_flatMap, List.length_flatMap]

/-- Reading the bytes of a string one by one. -/
theorem toList_toUTF8 (s : String) : s.toUTF8.toList = utf8 s := by
  have hloop : ∀ (n : ℕ) (b : ByteArray) (i : ℕ) (acc : List UInt8), b.size - i = n →
      ByteArray.toList.loop b i acc = acc.reverse ++ b.data.toList.drop i := by
    intro n
    induction n with
    | zero =>
        intro b i acc h
        have hlen : b.data.toList.length = b.size := by simp
        rw [ByteArray.toList.loop, if_neg (by omega), List.drop_eq_nil_of_le (by omega),
          List.append_nil]
    | succ n ih =>
        intro b i acc h
        have hlt : i < b.data.toList.length := by
          have hlen : b.data.toList.length = b.size := by simp
          omega
        have hlt' : i < b.data.size := by simpa using hlt
        have hget : b.get! i = b.data.toList[i] := by
          rw [ByteArray.get!, getElem!_pos b.data i hlt', Array.getElem_toList]
        rw [ByteArray.toList.loop, if_pos (by omega), ih b (i + 1) _ (by omega), hget,
          List.drop_eq_getElem_cons hlt, List.reverse_cons, List.append_assoc]
        rfl
  rw [ByteArray.toList, hloop _ _ _ _ rfl]
  rfl

/-! ## Slices -/

/-- The characters from byte `n` on; `none` if that is inside a character or past the end. -/
def dropBytes : ℕ → List Char → Option (List Char)
  | 0, cs => some cs
  | _ + 1, [] => none
  | n + 1, c :: cs =>
      if c.utf8Size ≤ n + 1 then dropBytes (n + 1 - c.utf8Size) cs else none

/-- `s.get(start..)`. -/
def sliceFrom? (s : String) (start : ℕ) : Option String :=
  (dropBytes start s.toList).map String.ofList

theorem dropBytes_append (front back : List Char) :
    dropBytes (front.map Char.utf8Size).sum (front ++ back) = some back := by
  induction front with
  | nil => simp [dropBytes]
  | cons c front ih =>
      have hpos := c.utf8Size_pos
      obtain ⟨n, hn⟩ : ∃ n, c.utf8Size + (front.map Char.utf8Size).sum = n + 1 :=
        ⟨c.utf8Size + (front.map Char.utf8Size).sum - 1, by omega⟩
      have hle : c.utf8Size ≤ n + 1 := by omega
      have hsub : n + 1 - c.utf8Size = (front.map Char.utf8Size).sum := by omega
      rw [List.map_cons, List.sum_cons, hn, List.cons_append, dropBytes, if_pos hle, hsub]
      exact ih

theorem sliceFrom?_append (front back : String) :
    sliceFrom? (front ++ back) (front.toList.map Char.utf8Size).sum = some back := by
  rw [sliceFrom?, String.toList_append, dropBytes_append, Option.map_some, String.ofList_toList]

/-! ## White space -/

/-- The Unicode property `White_Space`. -/
def isWhiteSpace (c : Char) : Bool :=
  (9 ≤ c.toNat ∧ c.toNat ≤ 13) ∨ c.toNat = 0x20 ∨ c.toNat = 0x85 ∨ c.toNat = 0xa0 ∨
    c.toNat = 0x1680 ∨ (0x2000 ≤ c.toNat ∧ c.toNat ≤ 0x200a) ∨ c.toNat = 0x2028 ∨
    c.toNat = 0x2029 ∨ c.toNat = 0x202f ∨ c.toNat = 0x205f ∨ c.toNat = 0x3000

def trim (s : String) : String :=
  String.ofList ((s.toList.dropWhile isWhiteSpace).rdropWhile isWhiteSpace)

theorem rdropWhile_append_of_all {α : Type} {p : α → Bool} (l : List α) {m : List α}
    (hm : m.all p = true) : (l ++ m).rdropWhile p = l.rdropWhile p := by
  have hdrop : m.reverse.dropWhile p = [] := by
    rw [List.dropWhile_eq_nil_iff]
    simpa using hm
  simp [List.rdropWhile, List.dropWhile_append, hdrop]

/-- White space at the end does not matter. -/
theorem trim_append {s t : String} (ht : t.toList.all isWhiteSpace = true) :
    trim (s ++ t) = trim s := by
  simp only [trim, String.toList_append, List.dropWhile_append]
  split
  · -- all of `s` is white space, too
    rename_i hall
    have hnil : s.toList.dropWhile isWhiteSpace = [] := List.isEmpty_iff.1 hall
    have hdrop : t.toList.dropWhile isWhiteSpace = [] := by
      rw [List.dropWhile_eq_nil_iff]
      simpa using ht
    rw [hnil, hdrop]
  · rw [rdropWhile_append_of_all _ ht]

/-! ## Lines -/

def newline : UInt8 := 10

theorem utf8_newline : utf8 "\n" = [newline] := by
  decide +kernel

def joinLines (lines : List (List UInt8)) : List UInt8 :=
  lines.flatMap fun line => line ++ [newline]

@[simp] theorem joinLines_nil : joinLines [] = [] := rfl

@[simp] theorem joinLines_cons (line : List UInt8) (lines : List (List UInt8)) :
    joinLines (line :: lines) = line ++ newline :: joinLines lines := by
  simp [joinLines]

@[simp] theorem joinLines_append (lines lines' : List (List UInt8)) :
    joinLines (lines ++ lines') = joinLines lines ++ joinLines lines' := by
  simp [joinLines]

/-- What stands before the first newline. -/
theorem takeWhile_line {line : List UInt8} (h : newline ∉ line) (rest : List UInt8) :
    (line ++ newline :: rest).takeWhile (fun b => b != newline) = line := by
  have hall : ∀ b ∈ line, (b != newline) = true := by
    intro b hb
    exact bne_iff_ne.2 fun heq => h (heq ▸ hb)
  rw [List.takeWhile_append_of_pos hall]
  simp

theorem append_newline_inj {line line' rest rest' : List UInt8} (h : newline ∉ line)
    (h' : newline ∉ line') (heq : line ++ newline :: rest = line' ++ newline :: rest') :
    line = line' ∧ rest = rest' := by
  have hline : line = line' := by
    rw [← takeWhile_line h rest, heq, takeWhile_line h']
  subst hline
  exact ⟨rfl, by simpa using heq⟩

/-- Complete lines at the front of a stream of lines are its first ones. -/
theorem lines_of_joinLines :
    ∀ {read lines : List (List UInt8)} {rest : List UInt8}, (∀ line ∈ read, newline ∉ line) →
      (∀ line ∈ lines, newline ∉ line) → joinLines read ++ rest = joinLines lines →
        ∃ ahead, lines = read ++ ahead ∧ rest = joinLines ahead
  | [], lines, rest, _, _, heq => ⟨lines, rfl, by simpa using heq⟩
  | line :: read, [], rest, _, _, heq => by simp at heq
  | line :: read, line' :: lines, rest, hread, hlines, heq => by
      simp only [joinLines_cons, List.append_assoc, List.cons_append] at heq
      rcases append_newline_inj (hread line List.mem_cons_self)
        (hlines line' List.mem_cons_self) heq with ⟨rfl, htail⟩
      rcases lines_of_joinLines (fun l hl => hread l (List.mem_cons_of_mem _ hl))
        (fun l hl => hlines l (List.mem_cons_of_mem _ hl)) htail with ⟨ahead, rfl, hrest⟩
      exact ⟨ahead, rfl, hrest⟩

/-- A stream of lines without a newline is empty. -/
theorem eq_nil_of_notMem_joinLines {lines : List (List UInt8)}
    (h : newline ∉ joinLines lines) : lines = [] := by
  cases lines with
  | nil => rfl
  | cons line lines => simp at h

/-- `read_line`: up to the first newline, with it; and what is left. -/
def readLine (bytes : List UInt8) : List UInt8 × List UInt8 :=
  let line := bytes.takeWhile fun b => b != newline
  let rest := bytes.drop line.length
  (line ++ rest.take 1, rest.drop 1)

theorem readLine_append {line : List UInt8} (h : newline ∉ line) (rest : List UInt8) :
    readLine (line ++ newline :: rest) = (line ++ [newline], rest) := by
  simp only [readLine, takeWhile_line h, List.drop_left]
  rfl

/-- Bytes with a newline start with a complete line. -/
theorem exists_line_of_mem {bytes : List UInt8} (h : newline ∈ bytes) :
    ∃ line rest, newline ∉ line ∧ bytes = line ++ newline :: rest := by
  rcases List.append_of_mem h with ⟨s, t, rfl⟩
  induction s with
  | nil => exact ⟨[], t, List.not_mem_nil, rfl⟩
  | cons b s ih =>
      by_cases hb : b = newline
      · subst hb
        exact ⟨[], s ++ newline :: t, List.not_mem_nil, rfl⟩
      · rcases ih (List.mem_append_right _ List.mem_cons_self) with ⟨line, rest, hline, heq⟩
        refine ⟨b :: line, rest, ?_, by rw [List.cons_append, heq, List.cons_append]⟩
        simp [hline, Ne.symm hb]

end Text
