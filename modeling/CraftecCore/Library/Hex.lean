import CraftecCore.Library.Text

/-!
# Hex — bytes as lower-case hexadecimal text

Two digits a byte, so the text determines the bytes, and has twice as many bytes itself.
-/

namespace Hex

open Text

def digits : List Char :=
  "0123456789abcdef".toList

def digit (n : ℕ) : Char :=
  digits.getD n '0'

def byteDigits (b : UInt8) : List Char :=
  [digit (b.toNat / 16), digit (b.toNat % 16)]

def encode (bytes : List UInt8) : String :=
  String.ofList (bytes.flatMap byteDigits)

theorem digit_injOn {m n : ℕ} (hm : m < 16) (hn : n < 16) (h : digit m = digit n) : m = n := by
  have hall : ∀ m < 16, ∀ n < 16, digit m = digit n → m = n := by
    decide +kernel
  exact hall m hm n hn h

theorem byteDigits_injective : Function.Injective byteDigits := by
  intro a b h
  simp only [byteDigits, List.cons.injEq, and_true] at h
  have ha := a.toNat_lt
  have hb := b.toNat_lt
  have hhigh := digit_injOn (by omega) (by omega) h.1
  have hlow := digit_injOn (Nat.mod_lt _ (by decide)) (Nat.mod_lt _ (by decide)) h.2
  exact UInt8.toNat_inj.1 (by omega)

theorem flatMap_byteDigits_injective : ∀ {bytes bytes' : List UInt8},
    bytes.flatMap byteDigits = bytes'.flatMap byteDigits → bytes = bytes'
  | [], [], _ => rfl
  | [], b :: bs, h => by simp [byteDigits] at h
  | a :: as, [], h => by simp [byteDigits] at h
  | a :: as, b :: bs, h => by
      rw [List.flatMap_cons, List.flatMap_cons] at h
      rcases List.append_inj h rfl with ⟨hhead, htail⟩
      rw [byteDigits_injective hhead, flatMap_byteDigits_injective htail]

/-- The text determines the bytes. -/
theorem encode_injective : Function.Injective encode := by
  intro bytes bytes' h
  exact flatMap_byteDigits_injective (String.ofList_injective h)

/-- Every digit takes one byte in UTF-8. -/
theorem utf8Size_digit {n : ℕ} (h : n < 16) : (digit n).utf8Size = 1 := by
  have hall : ∀ n < 16, (digit n).utf8Size = 1 := by
    decide +kernel
  exact hall n h

theorem length_utf8_encode (bytes : List UInt8) :
    (utf8 (encode bytes)).length = 2 * bytes.length := by
  rw [length_utf8, encode, String.toList_ofList]
  induction bytes with
  | nil => rfl
  | cons b bytes ih =>
      have hb := b.toNat_lt
      have hhigh := utf8Size_digit (n := b.toNat / 16) (by omega)
      have hlow := utf8Size_digit (n := b.toNat % 16) (Nat.mod_lt _ (by decide))
      rw [List.flatMap_cons, List.map_append, List.sum_append, ih]
      simp only [byteDigits, List.map_cons, List.map_nil, List.sum_cons, List.sum_nil, hhigh, hlow,
        List.length_cons]
      omega

end Hex
