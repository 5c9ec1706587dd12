import Mathlib.Algebra.Order.Ring.Nat
import Mathlib.Data.List.Lex
import Mathlib.Order.Defs.LinearOrder
import Mathlib.Tactic.Common

/-!
# Bytes — byte arrays of a fixed length and little-endian words

`Bytes n` is a list of `n` bytes that carries its length, ordered lexicographically.  The little
endian form of a word is given for any width, with its inverse.
-/

@[ext]
structure Bytes (n : Nat) where
  bytes : List UInt8
  length_eq : bytes.length = n
  deriving DecidableEq, Repr

namespace Bytes

variable {n : Nat}

theorem bytes_injective : Function.Injective fun a : Bytes n => a.bytes := by
  intro a b h
  exact Bytes.ext h

@[simp] theorem length_bytes (a : Bytes n) : a.bytes.length = n := a.length_eq

def zero (n : Nat) : Bytes n :=
  { bytes := List.replicate n 0
    length_eq := List.length_replicate }

instance : Inhabited (Bytes n) := ⟨zero n⟩

/-- `bytes.try_into()`: an array from a slice of the right length. -/
def ofList? (n : Nat) (l : List UInt8) : Option (Bytes n) :=
  if h : l.length = n then some ⟨l, h⟩ else none

@[simp] theorem ofList?_bytes (a : Bytes n) : ofList? n a.bytes = some a := by
  simp [ofList?]

theorem ofList?_eq_some {l : List UInt8} {a : Bytes n} : ofList? n l = some a ↔ a.bytes = l := by
  constructor
  · intro h
    unfold ofList? at h
    split at h
    · cases h
      rfl
    · cases h
  · rintro rfl
    exact ofList?_bytes a

/-- Read an array off the front of a byte string. -/
def split? (n : Nat) (l : List UInt8) : Option (Bytes n × List UInt8) :=
  if h : n ≤ l.length then
    some ({ bytes := l.take n, length_eq := by simp [h] }, l.drop n)
  else
    none

@[simp] theorem split?_append (a : Bytes n) (rest : List UInt8) :
    split? n (a.bytes ++ rest) = some (a, rest) := by
  have hlen : n ≤ (a.bytes ++ rest).length := by simp
  rw [split?, dif_pos hlen]
  congr 2
  · apply Bytes.ext
    simp
  · simp

/-- `a[start..start + len]`, a range inside the array. -/
def extract (a : Bytes n) (start len : Nat) (h : start + len ≤ n) : Bytes len :=
  { bytes := (a.bytes.drop start).take len
    length_eq := by
      rw [List.length_take, List.length_drop, a.length_eq]
      omega }

/-- A hash function given by its digests of finitely many messages; any other message has the
zero digest. -/
def ofTable (digests : List (List UInt8 × Bytes n)) (message : List UInt8) : Bytes n :=
  (digests.lookup message).getD (zero n)

/-- Byte arrays are ordered as the lists of their byte values. -/
instance : LinearOrder (Bytes n) :=
  LinearOrder.lift' (fun a => a.bytes.map UInt8.toNat) (by
    intro a b h
    have hinj : Function.Injective UInt8.toNat := fun x y => UInt8.toNat_inj.1
    exact bytes_injective (List.map_injective_iff.2 hinj h))

end Bytes

/-! ## Little-endian words -/

/-- The `width` low bytes of a number, least significant first. -/
def wordBytes : Nat → Nat → List UInt8
  | 0, _ => []
  | width + 1, x => UInt8.ofNat x :: wordBytes width (x / 256)

/-- The number whose bytes, least significant first, are given. -/
def leValue : List UInt8 → Nat
  | [] => 0
  | b :: bs => b.toNat + 256 * leValue bs

@[simp] theorem length_wordBytes : ∀ width x : Nat, (wordBytes width x).length = width
  | 0, _ => rfl
  | width + 1, x => by simp [wordBytes, length_wordBytes width]

theorem leValue_wordBytes : ∀ width x : Nat, leValue (wordBytes width x) = x % 256 ^ width
  | 0, x => by simp [wordBytes, leValue, Nat.mod_one]
  | width + 1, x => by
      calc leValue (wordBytes (width + 1) x)
          = x % 256 + 256 * (x / 256 % 256 ^ width) := by
            simp [wordBytes, leValue, leValue_wordBytes width]
        _ = x % 256 ^ (width + 1) := by
            rw [Nat.pow_succ, Nat.mul_comm (256 ^ width) 256, Nat.mod_mul]

/-- The array with the given value, most significant byte first. -/
def Bytes.ofNat (n value : Nat) : Bytes n :=
  { bytes := (wordBytes n value).reverse
    length_eq := by simp }

/-- Words of one width have different bytes. -/
theorem wordBytes_injOn {width x y : Nat} (hx : x < 256 ^ width) (hy : y < 256 ^ width)
    (h : wordBytes width x = wordBytes width y) : x = y := by
  have hval : leValue (wordBytes width x) = leValue (wordBytes width y) := by rw [h]
  simpa [leValue_wordBytes, Nat.mod_eq_of_lt hx, Nat.mod_eq_of_lt hy] using hval

def UInt32.leBytes (x : UInt32) : List UInt8 :=
  wordBytes 4 x.toNat

def UInt64.leBytes (x : UInt64) : List UInt8 :=
  wordBytes 8 x.toNat

@[simp] theorem UInt32.length_leBytes (x : UInt32) : x.leBytes.length = 4 :=
  length_wordBytes 4 _

@[simp] theorem UInt64.length_leBytes (x : UInt64) : x.leBytes.length = 8 :=
  length_wordBytes 8 _

theorem UInt32.leBytes_injective : Function.Injective UInt32.leBytes := by
  intro x y h
  exact UInt32.toNat_inj.1 (wordBytes_injOn x.toNat_lt y.toNat_lt h)

theorem UInt64.leBytes_injective : Function.Injective UInt64.leBytes := by
  intro x y h
  exact UInt64.toNat_inj.1 (wordBytes_injOn x.toNat_lt y.toNat_lt h)

def UInt32.ofLeBytes (l : List UInt8) : UInt32 :=
  UInt32.ofNat (leValue l)

def UInt64.ofLeBytes (l : List UInt8) : UInt64 :=
  UInt64.ofNat (leValue l)

@[simp] theorem UInt32.ofLeBytes_leBytes (x : UInt32) : UInt32.ofLeBytes x.leBytes = x := by
  have hx : x.toNat < 256 ^ 4 := x.toNat_lt
  rw [UInt32.ofLeBytes, UInt32.leBytes, leValue_wordBytes, Nat.mod_eq_of_lt hx, UInt32.ofNat_toNat]

@[simp] theorem UInt64.ofLeBytes_leBytes (x : UInt64) : UInt64.ofLeBytes x.leBytes = x := by
  have hx : x.toNat < 256 ^ 8 := x.toNat_lt
  rw [UInt64.ofLeBytes, UInt64.leBytes, leValue_wordBytes, Nat.mod_eq_of_lt hx, UInt64.ofNat_toNat]

/-! ## Bytes read as a word and written again -/

theorem leValue_lt : ∀ l : List UInt8, leValue l < 256 ^ l.length
  | [] => by simp [leValue]
  | b :: bs => by
      have hb := b.toNat_lt
      have hbs := leValue_lt bs
      simp only [leValue, List.length_cons, Nat.pow_succ]
      omega

@[simp] theorem wordBytes_leValue : ∀ l : List UInt8, wordBytes l.length (leValue l) = l
  | [] => rfl
  | b :: bs => by
      have hb := b.toNat_lt
      have hmod : (b.toNat + 256 * leValue bs) % 256 = b.toNat := by omega
      have hdiv : (b.toNat + 256 * leValue bs) / 256 = leValue bs := by omega
      -- the low byte is the head, the quotient the value of the tail
      have hhead : UInt8.ofNat (b.toNat + 256 * leValue bs) = b := by
        apply UInt8.toNat_inj.1
        rw [UInt8.toNat_ofNat']
        exact hmod
      simp only [leValue, List.length_cons, wordBytes, hdiv, hhead, wordBytes_leValue bs]

theorem UInt32.leBytes_ofLeBytes {l : List UInt8} (h : l.length = 4) :
    (UInt32.ofLeBytes l).leBytes = l := by
  have hlt : leValue l < 2 ^ 32 := by
    simpa [h] using leValue_lt l
  calc (UInt32.ofLeBytes l).leBytes
      = wordBytes l.length (leValue l) := by
        rw [UInt32.leBytes, UInt32.ofLeBytes, UInt32.toNat_ofNat_of_lt' hlt, h]
    _ = l := wordBytes_leValue l

theorem UInt64.leBytes_ofLeBytes {l : List UInt8} (h : l.length = 8) :
    (UInt64.ofLeBytes l).leBytes = l := by
  have hlt : leValue l < 2 ^ 64 := by
    simpa [h] using leValue_lt l
  calc (UInt64.ofLeBytes l).leBytes
      = wordBytes l.length (leValue l) := by
        rw [UInt64.leBytes, UInt64.ofLeBytes, UInt64.toNat_ofNat_of_lt' hlt, h]
    _ = l := wordBytes_leValue l

/-! ## Big-endian words -/

def UInt32.beBytes (x : UInt32) : List UInt8 :=
  x.leBytes.reverse

def UInt64.beBytes (x : UInt64) : List UInt8 :=
  x.leBytes.reverse

def UInt32.ofBeBytes (l : List UInt8) : UInt32 :=
  UInt32.ofLeBytes l.reverse

def UInt64.ofBeBytes (l : List UInt8) : UInt64 :=
  UInt64.ofLeBytes l.reverse

@[simp] theorem UInt32.length_beBytes (x : UInt32) : x.beBytes.length = 4 := by
  simp [UInt32.beBytes]

@[simp] theorem UInt64.length_beBytes (x : UInt64) : x.beBytes.length = 8 := by
  simp [UInt64.beBytes]

@[simp] theorem UInt32.ofBeBytes_beBytes (x : UInt32) : UInt32.ofBeBytes x.beBytes = x := by
  simp [UInt32.ofBeBytes, UInt32.beBytes]

@[simp] theorem UInt64.ofBeBytes_beBytes (x : UInt64) : UInt64.ofBeBytes x.beBytes = x := by
  simp [UInt64.ofBeBytes, UInt64.beBytes]

theorem UInt32.beBytes_ofBeBytes {l : List UInt8} (h : l.length = 4) :
    (UInt32.ofBeBytes l).beBytes = l := by
  have hrev : l.reverse.length = 4 := by simpa using h
  rw [UInt32.beBytes, UInt32.ofBeBytes, UInt32.leBytes_ofLeBytes hrev, List.reverse_reverse]

theorem UInt64.beBytes_ofBeBytes {l : List UInt8} (h : l.length = 8) :
    (UInt64.ofBeBytes l).beBytes = l := by
  have hrev : l.reverse.length = 8 := by simpa using h
  rw [UInt64.beBytes, UInt64.ofBeBytes, UInt64.leBytes_ofLeBytes hrev, List.reverse_reverse]
