import CraftecCore.Settlement.Receipt

/-!
# SignedMessage — what keys of this system sign for settlement

Vouchers and receipts are both signed as plain concatenations, without a tag that tells them apart.
Their lengths do: no signature of a voucher fits a receipt.
-/

namespace CraftecCore
namespace Settlement

def PaymentVoucher.signableData (channel : Bytes 32) (amount nonce : UInt64) : List UInt8 :=
  channel.bytes ++ amount.leBytes ++ nonce.leBytes

/-- What keys of this system sign for settlement. -/
inductive SignedMessage where
  | voucher (channel : Bytes 32) (amount nonce : UInt64)
  | receipt (r : StorageReceipt)
  deriving DecidableEq, Repr

namespace SignedMessage

def bytes : SignedMessage → List UInt8
  | voucher channel amount nonce => PaymentVoucher.signableData channel amount nonce
  | receipt r => r.signableBytes

/-- The message without the signature that a receipt carries beside it. -/
def unsigned : SignedMessage → SignedMessage
  | voucher channel amount nonce => voucher channel amount nonce
  | receipt r => receipt { r with signature := [] }

theorem length_voucher (channel : Bytes 32) (amount nonce : UInt64) :
    (voucher channel amount nonce).bytes.length = 48 := by
  simp [bytes, PaymentVoucher.signableData]

theorem length_receipt (r : StorageReceipt) : (receipt r).bytes.length = 172 := by
  simp [bytes, StorageReceipt.signableBytes]

theorem voucher_inj {channel channel' : Bytes 32} {amount amount' nonce nonce' : UInt64}
    (h : (voucher channel amount nonce).bytes = (voucher channel' amount' nonce').bytes) :
    voucher channel amount nonce = voucher channel' amount' nonce' := by
  rcases List.append_inj' h (by simp) with ⟨h, hnonce⟩
  rcases List.append_inj' h (by simp) with ⟨hchannel, hamount⟩
  rw [Bytes.ext hchannel, UInt64.leBytes_injective hamount, UInt64.leBytes_injective hnonce]

theorem receipt_inj {r s : StorageReceipt} (h : (receipt r).bytes = (receipt s).bytes) :
    (receipt r).unsigned = (receipt s).unsigned := by
  -- the seven fields from the right, each by its width
  rcases List.append_inj' h (by simp) with ⟨h, hproof⟩
  rcases List.append_inj' h (by simp) with ⟨h, hnonce⟩
  rcases List.append_inj' h (by simp) with ⟨h, htime⟩
  rcases List.append_inj' h (by simp) with ⟨h, hshard⟩
  rcases List.append_inj' h (by simp) with ⟨h, hchallenger⟩
  rcases List.append_inj' h (by simp) with ⟨hcontent, hnode⟩
  simp only [unsigned, Bytes.ext hcontent, Bytes.ext hnode, Bytes.ext hchallenger,
    UInt32.leBytes_injective hshard, UInt64.leBytes_injective htime, Bytes.ext hnonce,
    Bytes.ext hproof]

/-- A signature fits one message only: no voucher is signed as a receipt, and messages of one kind
that are signed alike have the same content. -/
theorem bytes_eq_iff (a b : SignedMessage) : a.bytes = b.bytes ↔ a.unsigned = b.unsigned := by
  constructor
  · intro h
    cases a with
    | voucher channel amount nonce =>
        cases b with
        | voucher channel' amount' nonce' => exact voucher_inj h
        | receipt s =>
            have hlen := congrArg List.length h
            rw [length_voucher, length_receipt] at hlen
            cases hlen
    | receipt r =>
        cases b with
        | voucher channel amount nonce =>
            have hlen := congrArg List.length h
            rw [length_voucher, length_receipt] at hlen
            cases hlen
        | receipt s => exact receipt_inj h
  · intro h
    have hunsigned : ∀ m : SignedMessage, m.unsigned.bytes = m.bytes := by
      intro m
      cases m <;> rfl
    rw [← hunsigned a, ← hunsigned b, h]

end SignedMessage

end Settlement
end CraftecCore
