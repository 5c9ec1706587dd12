import Mathlib.Data.List.Infix

/-!
# StoredValue — one value in one file

A program keeps a value in a file: it reads the value if it sees the file, and writes a first one if
it does not, also over a file that is there but was not seen.  The file is written whole, but not at
once: it is opened, which empties it, and the bytes follow.  `Stored` is what the file is for the
program: not there, a value, or the front of a value whose write was cut short.
-/

namespace StoredValue

variable {α : Type}

/-- How values are written into files and read back; a value may have no bytes. -/
structure Format (α : Type) where
  print : α → Option (List UInt8)
  parse : List UInt8 → Option α

inductive Ending
  | done
  | unopened
  /-- So many bytes are written. -/
  | stopped (count : ℕ)
  deriving DecidableEq, Repr

/-! ## Files -/

namespace Format

variable (fmt : Format α)

def writeFile (ending : Ending) (a : α) (file : Option (List UInt8)) : Option (List UInt8) :=
  match fmt.print a with
  | none => file
  | some bytes =>
      match ending with
      | .done => some bytes
      | .unopened => file
      | .stopped count => some (bytes.take count)

/-- The value is written, and the writer is told so. -/
def written (ending : Ending) (a : α) : Bool :=
  (fmt.print a).isSome && decide (ending = .done)

/-- The value in the file, or a first one, which is written into the file. -/
def obtainFile (seen readable : Bool) (ending : Ending) (first : α) (file : Option (List UInt8)) :
    Option α × Option (List UInt8) :=
  match if seen then file else none with
  | some bytes => (if readable then fmt.parse bytes else none, file)
  | none =>
      (if fmt.written ending first then some first else none, fmt.writeFile ending first file)

/-- Values are read back, and no front of one is read as a value. -/
structure Sound : Prop where
  parse_print : ∀ {a bytes}, fmt.print a = some bytes → fmt.parse bytes = some a
  parse_front : ∀ {a bytes front}, fmt.print a = some bytes → front <+: bytes → front ≠ bytes →
    fmt.parse front = none

end Format

/-! ## What a file is for the program -/

inductive Stored (α : Type)
  | absent
  | whole (a : α)
  | cut
  deriving DecidableEq, Repr

namespace Stored

variable {fmt : Format α}

def write (fmt : Format α) (ending : Ending) (a : α) (stored : Stored α) : Stored α :=
  match fmt.print a with
  | none => stored
  | some bytes =>
      match ending with
      | .done => .whole a
      | .unopened => stored
      | .stopped count => if bytes.length ≤ count then .whole a else .cut

def obtain (fmt : Format α) (seen readable : Bool) (ending : Ending) (first : α)
    (stored : Stored α) : Option α × Stored α :=
  match if seen then stored else .absent with
  | .absent =>
      (if fmt.written ending first then some first else none, stored.write fmt ending first)
  | .whole a => (if readable then some a else none, stored)
  | .cut => (none, stored)

def Holds (fmt : Format α) (file : Option (List UInt8)) : Stored α → Prop
  | .absent => file = none
  | .whole a => ∃ bytes, fmt.print a = some bytes ∧ file = some bytes
  | .cut => ∃ a bytes front,
      fmt.print a = some bytes ∧ front <+: bytes ∧ front ≠ bytes ∧ file = some front

variable {stored : Stored α} {file : Option (List UInt8)}

theorem Holds.write (h : stored.Holds fmt file) (ending : Ending) (a : α) :
    (stored.write fmt ending a).Holds fmt (fmt.writeFile ending a file) := by
  unfold Stored.write Format.writeFile
  cases hprint : fmt.print a with
  | none => exact h
  | some bytes =>
      cases ending with
      | done => exact ⟨bytes, hprint, rfl⟩
      | unopened => exact h
      | stopped count =>
          by_cases hall : bytes.length ≤ count
          · simp only [if_pos hall, List.take_of_length_le hall]
            exact ⟨bytes, hprint, rfl⟩
          · simp only [if_neg hall]
            refine ⟨a, bytes, bytes.take count, hprint, List.take_prefix count bytes, ?_, rfl⟩
            intro heq
            have hlength := congrArg List.length heq
            rw [List.length_take] at hlength
            omega

/-- Whoever obtains the value from the file gets what is stored. -/
theorem Holds.obtain (hfmt : fmt.Sound) (h : stored.Holds fmt file) (seen readable : Bool)
    (ending : Ending) (first : α) :
    (fmt.obtainFile seen readable ending first file).1 =
        (stored.obtain fmt seen readable ending first).1 ∧
      (stored.obtain fmt seen readable ending first).2.Holds fmt
        (fmt.obtainFile seen readable ending first file).2 := by
  have hwritten := h.write ending first
  cases seen with
  | false => exact ⟨rfl, hwritten⟩
  | true =>
      cases stored with
      | absent =>
          cases h
          exact ⟨rfl, hwritten⟩
      | whole a =>
          obtain ⟨bytes, hprint, rfl⟩ := h
          refine ⟨?_, bytes, hprint, rfl⟩
          simp [Format.obtainFile, Stored.obtain, hfmt.parse_print hprint]
      | cut =>
          obtain ⟨a, bytes, front, hprint, hfront, hne, rfl⟩ := h
          refine ⟨?_, a, bytes, front, hprint, hfront, hne, rfl⟩
          simp [Format.obtainFile, Stored.obtain, hfmt.parse_front hprint hfront hne]

/-- A first value that was written is stored, whatever was there before. -/
theorem write_of_written {ending : Ending} {first : α} (h : fmt.written ending first = true) :
    stored.write fmt ending first = .whole first := by
  simp only [Format.written, Bool.and_eq_true, Option.isSome_iff_exists, decide_eq_true_eq] at h
  obtain ⟨⟨bytes, hprint⟩, rfl⟩ := h
  simp only [Stored.write, hprint]

/-- Whatever is obtained is stored from then on. -/
theorem snd_obtain {seen readable : Bool} {ending : Ending} {first a : α}
    (h : (stored.obtain fmt seen readable ending first).1 = some a) :
    (stored.obtain fmt seen readable ending first).2 = .whole a := by
  have hfirst : ∀ {b : α}, (if fmt.written ending first then some first else none) = some b →
      stored.write fmt ending first = .whole b := by
    intro b hb
    by_cases hwritten : fmt.written ending first = true
    · rw [if_pos hwritten] at hb
      cases hb
      exact write_of_written hwritten
    · rw [if_neg hwritten] at hb
      cases hb
  cases seen with
  | false => exact hfirst h
  | true =>
      cases stored with
      | absent => exact hfirst h
      | whole b =>
          cases readable with
          | false => cases h
          | true =>
              cases h
              rfl
      | cut => cases h

theorem write_ne_absent {a : α} {bytes : List UInt8} {ending : Ending}
    (hprint : fmt.print a = some bytes) (hopen : ending ≠ .unopened) :
    stored.write fmt ending a ≠ .absent := by
  simp only [Stored.write, hprint]
  cases ending with
  | done => simp
  | unopened => exact absurd rfl hopen
  | stopped count => by_cases hall : bytes.length ≤ count <;> simp [hall]

/-- If a value is stored after a write has opened the file, it is the one written, and all of it. -/
theorem write_eq_whole {a b : α} {bytes : List UInt8} {ending : Ending}
    (hprint : fmt.print a = some bytes) (hopen : ending ≠ .unopened)
    (h : stored.write fmt ending a = .whole b) :
    b = a ∧ ∀ count, ending = .stopped count → bytes.length ≤ count := by
  simp only [Stored.write, hprint] at h
  cases ending with
  | done =>
      cases h
      exact ⟨rfl, by simp⟩
  | unopened => exact absurd rfl hopen
  | stopped count =>
      by_cases hall : bytes.length ≤ count
      · simp only [if_pos hall] at h
        cases h
        refine ⟨rfl, ?_⟩
        rintro _ ⟨⟩
        exact hall
      · simp [if_neg hall] at h

/-- What is there and seen is not changed by obtaining it. -/
theorem snd_obtain_of_ne_absent (h : stored ≠ .absent) (readable : Bool) (ending : Ending)
    (first : α) : (stored.obtain fmt true readable ending first).2 = stored := by
  cases stored with
  | absent => exact absurd rfl h
  | whole a => rfl
  | cut => rfl

/-- Without a write that is cut short, nothing is. -/
theorem write_ne_cut (h : stored ≠ .cut) {ending : Ending} (hending : ∀ n, ending ≠ .stopped n)
    (a : α) : stored.write fmt ending a ≠ .cut := by
  unfold Stored.write
  cases fmt.print a with
  | none => exact h
  | some bytes =>
      cases ending with
      | done => simp
      | unopened => exact h
      | stopped count => exact absurd rfl (hending count)

theorem snd_obtain_ne_cut (h : stored ≠ .cut) {ending : Ending}
    (hending : ∀ n, ending ≠ .stopped n) (seen readable : Bool) (first : α) :
    (stored.obtain fmt seen readable ending first).2 ≠ .cut := by
  cases seen with
  | false => exact write_ne_cut h hending first
  | true =>
      cases stored with
      | absent => exact write_ne_cut h hending first
      | whole a => exact h
      | cut => exact absurd rfl h

/-- If every operation succeeds, a value is obtained, unless one was cut short. -/
theorem exists_obtain (h : stored ≠ .cut) {first : α} (hfirst : (fmt.print first).isSome) :
    ∃ a, (stored.obtain fmt true true .done first).1 = some a := by
  cases stored with
  | absent => exact ⟨first, by simp [Stored.obtain, Format.written, hfirst]⟩
  | whole a => exact ⟨a, rfl⟩
  | cut => exact absurd rfl h

end Stored

end StoredValue
