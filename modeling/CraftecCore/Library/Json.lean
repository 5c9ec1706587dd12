import Mathlib.Algebra.Order.Ring.Nat
import Mathlib.Tactic.Common

/-!
# Json — values, and how records are read from them

A JSON value as a tree, with the decoders that a derived deserializer is put together from: a field
is read into a slot, which must be empty; an optional field that is null is absent.
-/

namespace Json

/-- A number: an unsigned integer, a negative integer, or the bits of a double. -/
inductive Number
  | posInt (n : UInt64)
  | negInt (n : Int64)
  | float (bits : UInt64)
  deriving DecidableEq, Repr

/-- A JSON value; the fields of an object stand in the order of the text. -/
inductive Value
  | null
  | bool (b : Bool)
  | number (n : Number)
  | string (s : String)
  | array (items : List Value)
  | object (fields : List (String × Value))

inductive DecodeError
  | invalidType (expected : String)
  | invalidValue (expected : String)
  | missingField (name : String)
  | duplicateField (name : String)
  | invalidLength (length : ℕ)
  | trailingCharacters
  deriving DecidableEq, Repr

variable {α : Type}

/-! ## Decoders -/

def Value.asString : Value → Except DecodeError String
  | .string s => .ok s
  | _ => .error (.invalidType "a string")

def Value.asInt32 : Value → Except DecodeError Int32
  | .number (.posInt n) =>
      if n.toNat ≤ 2147483647 then .ok (Int32.ofNat n.toNat) else .error (.invalidValue "i32")
  | .number (.negInt n) =>
      if -2147483648 ≤ n.toInt then .ok (Int32.ofInt n.toInt) else .error (.invalidValue "i32")
  | _ => .error (.invalidType "i32")

/-- An `Option`: null is `None`. -/
def Value.asOption (decode : Value → Except DecodeError α) : Value → Except DecodeError (Option α)
  | .null => .ok none
  | value => some <$> decode value

def readSlot (name : String) (slot : Option α) (decode : Value → Except DecodeError α)
    (value : Value) : Except DecodeError (Option α) :=
  if slot.isSome then .error (.duplicateField name) else some <$> decode value

def required (name : String) : Option α → Except DecodeError α
  | some value => .ok value
  | none => .error (.missingField name)

/-- The element of a record that is written as an array. -/
def element (items : List Value) (i : ℕ) : Except DecodeError Value :=
  match items[i]? with
  | some value => .ok value
  | none => .error (.invalidLength i)

/-! ## Encoders -/

def Value.ofInt32 (n : Int32) : Value :=
  if 0 ≤ n.toInt then
    .number (.posInt (UInt64.ofNat n.toInt.toNat))
  else
    .number (.negInt (Int64.ofInt n.toInt))

/-- An optional field: nothing is written for `None`. -/
def optionalField (name : String) (encode : α → Value) : Option α → List (String × Value)
  | some value => [(name, encode value)]
  | none => []

/-! ## What is read back -/

@[simp] theorem ok_bind {ε α β : Type} (a : α) (f : α → Except ε β) :
    (Except.ok a >>= f) = f a := rfl

@[simp] theorem readSlot_none {name : String} {decode : Value → Except DecodeError α}
    {value : Value} {a : α} (h : decode value = .ok a) :
    readSlot name none decode value = .ok (some a) := by
  simp [readSlot, h]

@[simp] theorem required_some (name : String) (a : α) : required name (some a) = .ok a := rfl

/-- An integer of 32 bits is read back. -/
theorem Value.asInt32_ofInt32 (n : Int32) : (Value.ofInt32 n).asInt32 = .ok n := by
  have hlo := n.le_toInt
  have hhi := n.toInt_lt
  unfold Value.ofInt32
  split
  · rename_i hnonneg
    have hnat : (UInt64.ofNat n.toInt.toNat).toNat = n.toInt.toNat :=
      UInt64.toNat_ofNat_of_lt' (by change _ < 2 ^ 64; omega)
    have hint : Int32.ofNat n.toInt.toNat = n := by
      rw [← Int32.ofInt_eq_ofNat, Int.toNat_of_nonneg hnonneg, Int32.ofInt_toInt]
    rw [asInt32, hnat, if_pos (by omega), hint]
  · have hint : (Int64.ofInt n.toInt).toInt = n.toInt :=
      Int64.toInt_ofInt_of_le (by omega) (by omega)
    rw [asInt32, hint, if_pos (by omega), Int32.ofInt_toInt]

/-- An optional value that is not null is read back; null is read as nothing. -/
theorem Value.asOption_eq {decode : Value → Except DecodeError α} {value : Value} {a : α}
    (h : decode value = .ok a) (hne : value ≠ .null) : value.asOption decode = .ok (some a) := by
  cases value with
  | null => exact absurd rfl hne
  | _ => simp [asOption, h]

end Json
